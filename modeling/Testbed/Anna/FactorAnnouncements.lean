import Testbed.Anna.FactorChanges
import Testbed.Anna.SmallClusters

/-! # Changes of factors, all or nothing

What a call of `change_replication_factor` does to the factors of a key, and whom it
tells.  The servers under the old factor and those under the new one are the first ones
of the same walk, so one lookup with the larger factor finds both.
-/
namespace Testbed.Anna

open Std Lib
open ServerThread List Std.ExtTreeMap

namespace MonitorState
variable {monitor : Monitor} {s t : MonitorState monitor} {out : Surroundings}
  {requests : ExtTreeMap Key KeyReplication} {key k : Key} {new : KeyReplication}
  {addresses addresses' : List Address}

/-! ## Updates of a key -/

/-- The updates of a key that are to go to an address. -/
def updatesAt (m : ReplicationFactorMap) (key : Key) (address : Address) : List ReplicationFactor :=
  (m.getD address []).filter fun update => update.key = key

theorem updatesAt_prepareReplicationFactorUpdate (m : ReplicationFactorMap) (address a : Address) :
    updatesAt (s.prepareReplicationFactorUpdate key m address) k a = updatesAt m k a ++
        if address = a ∧ key = k then [(s.factors key).toReplicationFactor key] else [] := by
  unfold updatesAt prepareReplicationFactorUpdate
  rw [getD_insert]
  simp only [Std.compare_eq_iff_eq]
  by_cases ha : address = a
  · subst ha
    rw [if_pos rfl, filter_append, filter_singleton]
    by_cases hk : key = k
    · subst hk
      simp [KeyReplication.toReplicationFactor]
    · rw [if_neg fun h => hk h.2]
      simp [KeyReplication.toReplicationFactor, hk]
  · rw [if_neg ha, if_neg fun h => ha h.1, append_nil]

/-- The factors of a key are announced to some addresses: one update for each of them. -/
structure Announces (key : Key) (addresses : List Address)
    (acc acc' : MonitorState monitor × ReplicationFactorMap) : Prop where
  frame : ∃ m, acc'.1 = { acc.1 with keyReplicationMap := m }
  others : ∀ k ≠ key, acc'.1.keyReplicationMap[k]? = acc.1.keyReplicationMap[k]? ∧
    ∀ a, updatesAt acc'.2 k a = updatesAt acc.2 k a
  same : (acc'.1.factors key).Same (acc.1.factors key)
  told : ∀ a, ∃ updates, updatesAt acc'.2 key a = updatesAt acc.2 key a ++ updates ∧
    updates.length = addresses.count a ∧
    ∀ update ∈ updates, ∃ rep : KeyReplication, rep.Same (acc.1.factors key) ∧
      update = rep.toReplicationFactor key

namespace Announces
variable {acc acc' acc'' : MonitorState monitor × ReplicationFactorMap}

theorem refl (key : Key) (acc : MonitorState monitor × ReplicationFactorMap) :
    Announces key [] acc acc where
  frame := ⟨_, rfl⟩
  others _ _ := ⟨rfl, fun _ => rfl⟩
  same := .refl _
  told _ := ⟨[], by simp⟩

theorem trans (h : Announces key addresses acc acc') (h' : Announces key addresses' acc' acc'') :
    Announces key (addresses ++ addresses') acc acc'' where
  frame := by
    obtain ⟨m, hm⟩ := h.frame
    obtain ⟨m', hm'⟩ := h'.frame
    rw [hm', hm]
    exact ⟨m', rfl⟩
  others k hk := by
    obtain ⟨hmap, hupdates⟩ := h.others k hk
    obtain ⟨hmap', hupdates'⟩ := h'.others k hk
    exact ⟨hmap'.trans hmap, fun a => (hupdates' a).trans (hupdates a)⟩
  same := h'.same.trans h.same
  told a := by
    obtain ⟨updates, heq, hlength, hnew⟩ := h.told a
    obtain ⟨updates', heq', hlength', hnew'⟩ := h'.told a
    refine ⟨updates ++ updates', ?_, ?_, fun update hmem => ?_⟩
    · rw [heq', heq, append_assoc]
    · rw [length_append, count_append, hlength, hlength']
    · rcases mem_append.mp hmem with hmem | hmem
      · exact hnew update hmem
      · obtain ⟨rep, hrep, hupdate⟩ := hnew' update hmem
        exact ⟨rep, hrep.trans h.same, hupdate⟩

theorem touch (key : Key) (tier : Tier) (s : MonitorState monitor) (m : ReplicationFactorMap) :
    Announces key [] (s, m) (s.setFactors key ((s.factors key).touchGlobal tier), m) where
  frame := ⟨_, rfl⟩
  others k hk := by
    refine ⟨?_, fun _ => rfl⟩
    rw [getElem?_setFactors, if_neg hk.symm]
  same := by
    rw [factors_setFactors, if_pos rfl]
    exact KeyReplication.touchGlobal_same _ tier
  told _ := ⟨[], by simp⟩

theorem update (s : MonitorState monitor) (key : Key) (m : ReplicationFactorMap)
    (address : Address) :
    Announces key [address] (s, m) (s, s.prepareReplicationFactorUpdate key m address) where
  frame := ⟨_, rfl⟩
  others k hk := by
    refine ⟨rfl, fun a => ?_⟩
    rw [updatesAt_prepareReplicationFactorUpdate, if_neg fun h => hk h.2.symm, append_nil]
  same := .refl _
  told a := by
    refine ⟨_, updatesAt_prepareReplicationFactorUpdate m address a, ?_, fun update hmem => ?_⟩
    · by_cases ha : address = a
      · rw [if_pos ⟨ha, rfl⟩, ha, count_singleton_self]
        rfl
      · rw [if_neg fun h => ha h.1, count_singleton, if_neg (by simpa using ha)]
        rfl
    · split at hmem
      · exact ⟨_, .refl _, mem_singleton.mp hmem⟩
      · cases hmem

theorem updates (s : MonitorState monitor) (key : Key) (m : ReplicationFactorMap)
    (addresses : List Address) :
    Announces key addresses (s, m)
      (s, addresses.foldl (fun m address => s.prepareReplicationFactorUpdate key m address) m) := by
  induction addresses generalizing m with
  | nil => exact .refl key _
  | cons address _ ih => exact (update s key m address).trans (ih _)

end Announces

/-! ## The servers of a key -/

/-- The servers of a key under the larger one of two factors. -/
def toldServers (s : MonitorState monitor) (key : Key) (rep orig : KeyReplication) (tier : Tier) :
    List ServerThread :=
  (serversFrom key (s.globalHashRings tier)).take (max (rep.globalAt tier) (orig.globalAt tier))

/-- The rings are large enough for both factors. -/
def CanTell (s : MonitorState monitor) (rep orig : KeyReplication) (tier : Tier) : Prop :=
  GlobalFits (s.globalHashRings tier) (max (rep.globalAt tier) (orig.globalAt tier))

variable {tier : Tier} {addrRequestMap : AddrRequestMap} {m : ReplicationFactorMap}

variable {orig : KeyReplication} {acc acc' : MonitorState monitor × ReplicationFactorMap}
  {failed : ExtTreeSet Key}

theorem announceTier_eq : announceTier orig key acc tier =
      (responsibleGlobal key (max ((acc.1.factors key).globalAt tier) (orig.globalAt tier))
        (acc.1.globalHashRings tier)).map fun threads =>
          (acc.1.setFactors key ((acc.1.factors key).touchGlobal tier),
            (threads.map replicationChangeConnectAddress).foldl
              (fun m address => prepareReplicationFactorUpdate
                (acc.1.setFactors key ((acc.1.factors key).touchGlobal tier)) key m address)
              acc.2) := by
  unfold announceTier
  dsimp only
  rw [factors_setFactors, if_pos rfl, (KeyReplication.touchGlobal_same _ tier tier).1]
  simp only [foldl_map]
  rfl

theorem announceTier_eq_ok (h : announceTier orig key acc tier = .ok acc') :
    acc.1.CanTell (acc.1.factors key) orig tier ∧
      Announces key ((acc.1.toldServers key (acc.1.factors key) orig tier).map
        replicationChangeConnectAddress) acc acc' := by
  rw [announceTier_eq] at h
  by_cases hfits : acc.1.CanTell (acc.1.factors key) orig tier
  · rw [responsibleGlobal_of_fits hfits] at h
    cases h
    exact ⟨hfits, (Announces.touch key tier acc.1 acc.2).trans (Announces.updates _ key acc.2 _)⟩
  · rw [responsibleGlobal_of_not_fits hfits] at h
    cases h

theorem announceTier_returns_iff : (∃ acc', announceTier orig key acc tier = .ok acc') ↔
      acc.1.CanTell (acc.1.factors key) orig tier := by
  constructor
  · rintro ⟨_, h⟩
    exact (announceTier_eq_ok h).1
  · intro hfits
    rw [announceTier_eq, responsibleGlobal_of_fits hfits]
    exact ⟨_, rfl⟩

theorem Announces.reads (h : Announces key addresses acc acc') (orig : KeyReplication)
    (tier : Tier) :
    (acc'.1.CanTell (acc'.1.factors key) orig tier ↔ acc.1.CanTell (acc.1.factors key) orig tier) ∧
    acc'.1.toldServers key (acc'.1.factors key) orig tier =
      acc.1.toldServers key (acc.1.factors key) orig tier := by
  have hfactor := (h.same tier).1
  obtain ⟨m, hframe⟩ := h.frame
  have hring : acc'.1.globalHashRings tier = acc.1.globalHashRings tier := by rw [hframe]
  unfold CanTell toldServers
  rw [hfactor, hring]
  exact ⟨Iff.rfl, rfl⟩

variable {tiers : List Tier}

theorem announceTiers_eq_ok (h : tiers.foldlM (announceTier orig key) acc = .ok acc') :
    Announces key (tiers.flatMap fun tier =>
      (acc.1.toldServers key (acc.1.factors key) orig tier).map
        replicationChangeConnectAddress) acc acc' := by
  induction tiers generalizing acc with
  | nil =>
    cases h
    exact .refl key _
  | cons _ _ ih =>
    obtain ⟨_, htier, h⟩ := foldlM_cons_eq_ok.mp h
    have hfirst := (announceTier_eq_ok htier).2
    have hrest := ih h
    simp only [(hfirst.reads orig _).2] at hrest
    exact hfirst.trans hrest

theorem announceTiers_returns_iff : (∃ acc', tiers.foldlM (announceTier orig key) acc = .ok acc') ↔
      ∀ tier ∈ tiers, acc.1.CanTell (acc.1.factors key) orig tier := by
  rw [foldlM_returns_iff fun _ tier => acc.1.CanTell (acc.1.factors key) orig tier]
  · exact forall_split_iff
  · intro _ tier _ _ _ hpre
    exact announceTier_returns_iff.trans ((announceTiers_eq_ok hpre).reads orig tier).1

/-- Whom a change of factors is announced to. -/
def recipients (s : MonitorState monitor) (key : Key) (rep orig : KeyReplication) : List Address :=
  (kAllTiers.flatMap fun tier => (s.toldServers key rep orig tier).map
    replicationChangeConnectAddress) ++
    s.routingIps.map fun ip => (RoutingThread.mk ip 0).replicationChangeConnectAddress

theorem announceKey_eq_ok {orig : ExtTreeMap Key KeyReplication} (hkey : key ∉ failed)
    (h : announceKey orig failed acc key = .ok acc') :
    Announces key (acc.1.recipients key (acc.1.factors key) (orig.getD key default)) acc acc' := by
  rw [announceKey, if_neg hkey] at h
  obtain ⟨acc₁, htiers, h⟩ := bind_eq_ok.mp h
  cases h
  have hservers := announceTiers_eq_ok htiers
  have hips : acc₁.1.routingIps = acc.1.routingIps := by
    obtain ⟨m, hframe⟩ := hservers.frame
    rw [hframe]
  refine hservers.trans ?_
  rw [← hips]
  simp only [← foldl_map (f := fun ip : Address =>
    (RoutingThread.mk ip 0).replicationChangeConnectAddress)]
  exact Announces.updates acc₁.1 key acc₁.2 _

theorem announceKey_returns_iff {orig : ExtTreeMap Key KeyReplication} :
    (∃ acc', announceKey orig failed acc key = .ok acc') ↔ (key ∉ failed → ∀ tier ∈ kAllTiers,
        acc.1.CanTell (acc.1.factors key) (orig.getD key default) tier) := by
  unfold announceKey
  by_cases hkey : key ∈ failed
  · rw [if_pos hkey]
    exact iff_of_true ⟨_, rfl⟩ fun h => absurd hkey h
  · rw [if_neg hkey, bind_returns_iff, forall_prop_of_true hkey, ← announceTiers_returns_iff]
    constructor
    · rintro ⟨acc₁, hacc₁, _⟩
      exact ⟨acc₁, hacc₁⟩
    · rintro ⟨acc₁, hacc₁⟩
      exact ⟨acc₁, hacc₁, _, rfl⟩

/-! ## All keys -/

/-- The maps when some of the keys have been announced; `t` is the state from before. -/
structure Announced (t : MonitorState monitor) (orig : ExtTreeMap Key KeyReplication)
    (failed : ExtTreeSet Key) (done : List Key)
    (acc : MonitorState monitor × ReplicationFactorMap) : Prop where
  frame : ∃ m, acc.1 = { t with keyReplicationMap := m }
  untouched : ∀ k, k ∉ done ∨ k ∈ failed →
    acc.1.keyReplicationMap[k]? = t.keyReplicationMap[k]? ∧ ∀ a, updatesAt acc.2 k a = []
  same : ∀ k, (acc.1.factors k).Same (t.factors k)
  told : ∀ k ∈ done, k ∉ failed → ∀ a, (updatesAt acc.2 k a).length =
      (t.recipients k (t.factors k) (orig.getD k default)).count a ∧
    ∀ update ∈ updatesAt acc.2 k a, ∃ rep : KeyReplication, rep.Same (t.factors k) ∧
      update = rep.toReplicationFactor k

namespace Announced
variable {orig : ExtTreeMap Key KeyReplication} {failed : ExtTreeSet Key} {done : List Key}
  {acc acc' : MonitorState monitor × ReplicationFactorMap}

theorem initial (t : MonitorState monitor) (orig : ExtTreeMap Key KeyReplication)
    (failed : ExtTreeSet Key) : Announced t orig failed [] (t, ∅) where
  frame := ⟨_, rfl⟩
  untouched _ _ := ⟨rfl, fun a => by simp [updatesAt]⟩
  same _ := .refl _
  told := by simp

theorem step (hacc : Announced t orig failed done acc) (hnew : key ∉ done)
    (h : announceKey orig failed acc key = .ok acc') :
    Announced t orig failed (done ++ [key]) acc' := by
  by_cases hkey : key ∈ failed
  · rw [announceKey, if_pos hkey] at h
    cases h
    refine ⟨hacc.frame, fun k hk => hacc.untouched k ?_, hacc.same, fun k hk hok => ?_⟩
    · exact hk.imp_left fun hk hmem => hk (mem_append_left _ hmem)
    · rcases mem_append.mp hk with hk | hk
      · exact hacc.told k hk hok
      · exact absurd hkey (mem_singleton.mp hk ▸ hok)
  · have hannounces := announceKey_eq_ok hkey h
    obtain ⟨hmap, hnone⟩ := hacc.untouched key (.inl hnew)
    have hfactors : acc.1.factors key = t.factors key := by
      rw [factors_eq_getD, hmap, factors_eq_getD]
    obtain ⟨m, hframe⟩ := hacc.frame
    have hrecipients : acc.1.recipients key (acc.1.factors key) (orig.getD key default) =
        t.recipients key (t.factors key) (orig.getD key default) := by
      rw [hfactors, hframe]
      rfl
    refine ⟨?_, fun k hk => ?_, fun k => ?_, fun k hk hok a => ?_⟩
    · obtain ⟨m', hframe'⟩ := hannounces.frame
      rw [hframe', hframe]
      exact ⟨m', rfl⟩
    · have hne : k ≠ key := by
        rintro rfl
        exact hk.elim (fun hk => hk (by simp)) hkey
      obtain ⟨hmap', hupdates⟩ := hannounces.others k hne
      obtain ⟨hmap, hnone⟩ := hacc.untouched k
        (hk.imp_left fun hk hmem => hk (mem_append_left _ hmem))
      exact ⟨hmap'.trans hmap, fun a => (hupdates a).trans (hnone a)⟩
    · by_cases hk : k = key
      · subst hk
        exact hannounces.same.trans (hacc.same k)
      · have hkept : acc'.1.factors k = acc.1.factors k := by
          rw [factors_eq_getD, (hannounces.others k hk).1, factors_eq_getD]
        rw [hkept]
        exact hacc.same k
    · by_cases hk' : k = key
      · subst hk'
        obtain ⟨_, heq, hlength, hcontent⟩ := hannounces.told a
        rw [heq, hnone a, nil_append, hlength, hrecipients]
        rw [hfactors] at hcontent
        exact ⟨rfl, hcontent⟩
      · rw [(hannounces.others k hk').2 a]
        refine hacc.told k ?_ hok a
        exact (mem_append.mp hk).resolve_right fun hlast => hk' (mem_singleton.mp hlast)

theorem of_foldlM {keys : List Key} (hkeys : keys.Nodup)
    (h : keys.foldlM (announceKey orig failed) (t, ∅) = .ok acc) :
    Announced t orig failed keys acc := by
  refine foldlM_done (Announced t orig failed) ?_ (initial t orig failed) h
  rintro _ key _ _ _ rfl hacc hstep
  refine hacc.step (fun hmem => ?_) hstep
  exact (nodup_append.mp hkeys).2.2 key hmem key mem_cons_self rfl

end Announced

theorem announceKeys_returns_iff {orig : ExtTreeMap Key KeyReplication} {keys : List Key}
    (hkeys : keys.Nodup) :
    (∃ acc, keys.foldlM (announceKey orig failed) (t, ∅) = .ok acc) ↔
      ∀ key ∈ keys, key ∉ failed → ∀ tier ∈ kAllTiers,
        t.CanTell (t.factors key) (orig.getD key default) tier := by
  rw [foldlM_returns_iff (fun _ key => key ∉ failed → ∀ tier ∈ kAllTiers,
    t.CanTell (t.factors key) (orig.getD key default) tier)]
  · exact forall_split_iff
  · rintro _ key _ _ rfl hacc
    have hpre := Announced.of_foldlM (nodup_append.mp hkeys).1 hacc
    obtain ⟨m, hframe⟩ := hpre.frame
    rw [announceKey_returns_iff]
    unfold CanTell
    simp only [(hpre.same key _).1]
    rw [hframe]

/-! ## Restoring the factors of failed keys -/

theorem restore_eq (s : MonitorState monitor) (orig : ExtTreeMap Key KeyReplication)
    (keys : List Key) :
    ∃ m, keys.foldl (fun s key => s.setFactors key (orig.getD key default)) s =
        { s with keyReplicationMap := m } ∧
      ∀ k : Key, m[k]? =
        if k ∈ keys then some (orig.getD k default) else s.keyReplicationMap[k]? := by
  induction keys generalizing s with
  | nil => exact ⟨_, rfl, by simp⟩
  | cons key keys ih =>
    obtain ⟨m, hstate, hm⟩ := ih (s.setFactors key (orig.getD key default))
    refine ⟨m, hstate, fun k => ?_⟩
    rw [hm, getElem?_setFactors]
    by_cases hk : k ∈ keys
    · rw [if_pos hk, if_pos (mem_cons_of_mem _ hk)]
    · rw [if_neg hk]
      by_cases heq : key = k
      · rw [if_pos heq, heq, if_pos mem_cons_self]
      · rw [if_neg heq, if_neg]
        exact fun hmem => (mem_cons.mp hmem).elim (fun h => heq h.symm) hk

/-! ## What the messages say about a key -/

/-- The updates of a key in some messages, with their addresses. -/
def updatesFor (messages : List (Address × Message)) (key : Key) :
    List (Address × ReplicationFactor) :=
  messages.flatMap fun message =>
    match message.2 with
    | .replicationChange updates =>
      (updates.filter fun update => update.key = key).map (message.1, ·)
    | _ => []

/-- A request for the key was not answered, or an answer refuses the key. -/
def ReportedFailed (out : Surroundings) (messages : List (Address × Message)) (key : Key) : Prop :=
  ∃ a request, (a, .keyRequest request) ∈ messages ∧
    match out.answer a with
    | none => ∃ tuple ∈ request.tuples, getKeyFromMetadata tuple.key = key
    | some res => ∃ tuple ∈ res.tuples, tuple.error = .wrongThread ∧
        getKeyFromMetadata tuple.key = key

/-- What `change_replication_factor` sends. -/
def changeMessages (addrRequestMap : AddrRequestMap) (m : ReplicationFactorMap) :
    List (Address × Message) :=
  addrRequestMap.toList.map (fun pair => (pair.1, .keyRequest pair.2)) ++
    m.toList.map (fun pair => (pair.1, .replicationChange pair.2))

theorem reportedFailed_changeMessages : ReportedFailed out (changeMessages addrRequestMap m) key ↔
      key ∈ failedKeys out addrRequestMap := by
  unfold ReportedFailed changeMessages
  rw [mem_failedKeys]
  constructor
  · rintro ⟨a, _, hmem, hfailed⟩
    simp only [mem_append, mem_map, Prod.mk.injEq, Message.keyRequest.injEq,
      reduceCtorEq, and_false, exists_false, or_false] at hmem
    obtain ⟨pair, hpair, rfl, rfl⟩ := hmem
    exact ⟨pair, hpair, mem_failedBy.mpr hfailed⟩
  · rintro ⟨pair, hpair, hfailed⟩
    exact ⟨pair.1, pair.2, mem_append_left _ (mem_map_of_mem hpair), mem_failedBy.mp hfailed⟩

theorem updatesFor_changeMessages : updatesFor (changeMessages addrRequestMap m) key =
      m.toList.flatMap fun pair =>
        (pair.2.filter fun update => update.key = key).map (pair.1, ·) := by
  have hrequests : updatesFor (addrRequestMap.toList.map fun pair =>
      (pair.1, Message.keyRequest pair.2)) key = [] := by
    rw [updatesFor, flatMap_map]
    exact flatMap_eq_nil_iff.mpr fun _ _ => rfl
  rw [changeMessages]
  unfold updatesFor at hrequests ⊢
  rw [flatMap_append, hrequests, nil_append, flatMap_map]

theorem mem_updatesFor_changeMessages {update : Address × ReplicationFactor}
    (h : update ∈ updatesFor (changeMessages addrRequestMap m) key) :
    update.2 ∈ updatesAt m key update.1 := by
  rw [updatesFor_changeMessages] at h
  obtain ⟨_, hpair, h⟩ := mem_flatMap.mp h
  obtain ⟨u, hu, rfl⟩ := mem_map.mp h
  rw [updatesAt, getD_eq_getD_getElem?, mem_toList_iff_getElem?_eq_some.mp hpair]
  exact hu

theorem count_updatesFor_changeMessages (a : Address) :
    ((updatesFor (changeMessages addrRequestMap m) key).map Prod.fst).count a =
      (updatesAt m key a).length := by
  rw [count_eq_countP, countP_map, updatesFor_changeMessages]
  cases hget : m[a]? with
  | none =>
    rw [updatesAt, getD_eq_getD_getElem?, hget]
    refine countP_eq_zero.mpr fun update hmem => ?_
    obtain ⟨pair, hpair, hmem⟩ := mem_flatMap.mp hmem
    obtain ⟨u, -, rfl⟩ := mem_map.mp hmem
    have hne : pair.1 ≠ a := by
      rintro rfl
      rw [mem_toList_iff_getElem?_eq_some.mp hpair] at hget
      cases hget
    simpa using hne
  | some =>
    rw [countP_flatMap_of_only (pairwise_toList m)
      (mem_toList_iff_getElem?_eq_some.mpr hget), updatesAt,
      getD_eq_getD_getElem?, hget]
    · simp [countP_map, Function.comp_def]
    · intro _ _ hne _ hmem
      obtain ⟨u, -, rfl⟩ := mem_map.mp hmem
      simpa using hne

/-! ## The outcome of a call -/

/-- What a call that returns leaves behind. -/
structure Outcome (s : MonitorState monitor) (out : Surroundings)
    (requests : ExtTreeMap Key KeyReplication) (messages : List (Address × Message))
    (s' : MonitorState monitor) : Prop where
  sent : s'.sent = s.sent ++ messages
  reported : ∀ key, ReportedFailed out messages key ↔ s.Fails out requests key
  changed : ∀ (key : Key) (new : KeyReplication), requests[key]? = some new →
    ¬ s.Fails out requests key →
    (∀ tier ∈ kAllTiers, s.CanTell (chosen new (s.factors key)) (s.factors key) tier) ∧
    (s'.factors key).Same (chosen new (s.factors key)) ∧
    (∀ update ∈ updatesFor messages key, ∃ rep : KeyReplication,
      rep.Same (chosen new (s.factors key)) ∧ update.2 = rep.toReplicationFactor key) ∧
    ((updatesFor messages key).map Prod.fst).Perm
      (s.recipients key (chosen new (s.factors key)) (s.factors key))
  restored : ∀ key, s.Fails out requests key → updatesFor messages key = [] ∧
    s'.keyReplicationMap[key]? = some (if key ∈ requests then s.factors key else default)
  others : ∀ key, ¬ s.Fails out requests key → key ∉ requests →
    s'.keyReplicationMap[key]? = s.keyReplicationMap[key]?

variable {prepared : Prepared monitor}

theorem Stored.factors_of_request (h : Stored s out requests.toList prepared)
    (hrequest : requests[key]? = some new) :
    prepared.orig.getD key default = s.factors key ∧
      prepared.state.factors key = chosen new (s.factors key) := by
  obtain ⟨horig, hstate⟩ := h.requested (key, new) (mem_toList_iff_getElem?_eq_some.mpr hrequest)
  rw [getD_eq_getD_getElem?, horig, factors_eq_getD prepared.state, hstate]
  exact ⟨rfl, rfl⟩

theorem Stored.of_notMem (h : Stored s out requests.toList prepared) (hkey : key ∉ requests) :
    prepared.orig.getD key default = default ∧
      prepared.state.keyReplicationMap[key]? = s.keyReplicationMap[key]? := by
  obtain ⟨horig, hstate⟩ := h.others key fun request hmem heq => hkey (by
    rw [← heq, mem_iff_isSome_getElem?, mem_toList_iff_getElem?_eq_some.mp hmem]
    rfl)
  rw [getD_eq_getD_getElem?, horig]
  exact ⟨rfl, hstate⟩

theorem nodup_requestKeys (requests : ExtTreeMap Key KeyReplication) :
    (requests.toList.map Prod.fst).Nodup :=
  pairwise_map.mpr (pairwise_toList requests)

theorem mem_requestKeys : key ∈ requests.toList.map Prod.fst ↔ key ∈ requests := by
  rw [mem_iff_isSome_getElem?, Option.isSome_iff_exists]
  simp only [mem_map, Prod.exists, exists_and_right, exists_eq_right,
    mem_toList_iff_getElem?_eq_some]

theorem changeReplicationFactor_eq_ok {s' : MonitorState monitor}
    (h : s.changeReplicationFactor out requests = .ok s') :
    ∃ messages, Outcome s out requests messages s' := by
  obtain ⟨prepared, hprepared, h⟩ := bind_eq_ok.mp h
  obtain ⟨⟨t, m⟩, hannounced, h⟩ := bind_eq_ok.mp h
  cases h
  have hstored := prepareKeys_stored hprepared
  have hann := Announced.of_foldlM (nodup_requestKeys requests) hannounced
  obtain ⟨_, _, hframe⟩ := hstored.frame
  obtain ⟨_, hframe'⟩ := hann.frame
  obtain ⟨m₃, hrestore, hm₃⟩ := restore_eq t prepared.orig
    (failedKeys out prepared.addrRequestMap).toList
  have hfailed : ∀ key, key ∈ failedKeys out prepared.addrRequestMap ↔
      s.Fails out requests key := fun key => hstored.mem_failedKeys_iff
  have hget : ∀ key : Key, m₃[key]? = if key ∈ failedKeys out prepared.addrRequestMap then
      some (prepared.orig.getD key default) else t.keyReplicationMap[key]? := by
    intro key
    rw [hm₃]
    simp
  refine ⟨changeMessages prepared.addrRequestMap m, ?_, fun key => ?_, ?_, ?_, ?_⟩
  · dsimp only at hframe' ⊢
    rw [hrestore, hframe', hframe, changeMessages, append_assoc]
  · rw [reportedFailed_changeMessages, hfailed]
  · intro key new hrequest hok
    obtain ⟨horig, hchosen⟩ := hstored.factors_of_request hrequest
    have hkey := mem_requestKeys.mpr (by
      rw [mem_iff_isSome_getElem?, hrequest]
      rfl)
    have hok' := mt (hfailed key).mp hok
    have htold := hann.told key hkey hok'
    have hsame := hann.same key
    have hfits := (announceKeys_returns_iff (nodup_requestKeys requests)).mp ⟨_, hannounced⟩
      key hkey hok'
    rw [hchosen, horig] at hfits htold
    rw [hchosen] at hsame
    have hreads : prepared.state.recipients key (chosen new (s.factors key)) (s.factors key) =
        s.recipients key (chosen new (s.factors key)) (s.factors key) := by
      rw [hframe]
      rfl
    refine ⟨fun tier htier => ?_, ?_, fun update hmem => ?_, ?_⟩
    · have hcan := hfits tier htier
      rw [hframe] at hcan
      exact hcan
    · rw [hrestore, factors_eq_getD]
      rw [hget, if_neg hok', ← factors_eq_getD]
      exact hsame
    · exact (htold update.1).2 _ (mem_updatesFor_changeMessages hmem)
    · refine perm_iff_count.mpr fun a => ?_
      rw [count_updatesFor_changeMessages, (htold a).1, hreads]
  · intro key hfails
    have hmem := (hfailed key).mpr hfails
    refine ⟨eq_nil_iff_forall_not_mem.mpr fun update hupdate => ?_, ?_⟩
    · have hnone := (hann.untouched key (.inr hmem)).2 update.1
      have hat := mem_updatesFor_changeMessages hupdate
      rw [hnone] at hat
      cases hat
    · dsimp only
      rw [hrestore, hget, if_pos hmem]
      by_cases hkey : key ∈ requests
      · obtain ⟨_, hnew⟩ := Option.isSome_iff_exists.mp (mem_iff_isSome_getElem?.mp hkey)
        rw [if_pos hkey, (hstored.factors_of_request hnew).1]
      · rw [if_neg hkey, (hstored.of_notMem hkey).1]
  · intro key hok hkey
    have hok' := mt (hfailed key).mp hok
    rw [hrestore, hget, if_neg hok', (hann.untouched key (.inl (mt mem_requestKeys.mp hkey))).1,
      (hstored.of_notMem hkey).2]

theorem changeReplicationFactor_returns_iff :
    (∃ s', s.changeReplicationFactor out requests = .ok s') ↔
      (∀ (key : Key) (new : KeyReplication), requests[key]? = some new →
        new.equals (s.factors key) = true ∨ s.toRingMaps.MetadataEnds) ∧
      ∀ (key : Key) (new : KeyReplication), requests[key]? = some new →
        ¬ s.Fails out requests key → ∀ tier ∈ kAllTiers,
          s.CanTell (chosen new (s.factors key)) (s.factors key) tier := by
  constructor
  · rintro ⟨_, h⟩
    obtain ⟨_, houtcome⟩ := changeReplicationFactor_eq_ok h
    obtain ⟨prepared, hprepared, -⟩ := bind_eq_ok.mp h
    exact ⟨prepareKeys_returns_iff.mp ⟨prepared, hprepared⟩,
      fun key new hrequest hok => (houtcome.changed key new hrequest hok).1⟩
  · rintro ⟨hstores, hfits⟩
    obtain ⟨prepared, hprepared⟩ := prepareKeys_returns_iff.mpr hstores
    have hstored := prepareKeys_stored hprepared
    obtain ⟨m, _, hframe⟩ := hstored.frame
    have htell : ∀ key ∈ requests.toList.map Prod.fst,
        key ∉ failedKeys out prepared.addrRequestMap → ∀ tier ∈ kAllTiers,
        prepared.state.CanTell (prepared.state.factors key) (prepared.orig.getD key default)
          tier := by
      intro key hkey hok tier htier
      obtain ⟨new, hrequest⟩ := Option.isSome_iff_exists.mp
        (mem_iff_isSome_getElem?.mp (mem_requestKeys.mp hkey))
      obtain ⟨horig, hchosen⟩ := hstored.factors_of_request hrequest
      rw [horig, hchosen, hframe]
      exact hfits key new hrequest (mt hstored.mem_failedKeys_iff.mpr hok) tier htier
    obtain ⟨acc, hacc⟩ := (announceKeys_returns_iff (nodup_requestKeys requests)).mpr htell
    exact bind_returns_iff.mpr ⟨prepared, hprepared, bind_returns_iff.mpr ⟨acc, hacc, _, rfl⟩⟩

/-! ## All or nothing -/

variable (s)

/-- The server is responsible for the key in the tier, under some factors. -/
def Keeps (key : Key) (rep : KeyReplication) (tier : Tier) (server : ServerThread) : Prop :=
  ∃ servers, responsibleGlobal key (rep.globalAt tier) (s.globalHashRings tier) = .ok servers ∧
    server ∈ servers

/-- The change of a key is done: its factors are the new ones, and there is one update
with them for each of its servers under the old or the new factors, in each tier, and for
each routing node. -/
structure Changed (s s' : MonitorState monitor) (messages : List (Address × Message)) (key : Key)
    (new : KeyReplication) : Prop where
  factors : (s'.factors key).Same new
  updates : ∀ update ∈ updatesFor messages key, ∃ rep : KeyReplication, rep.Same new ∧
    update.2 = rep.toReplicationFactor key
  recipients : ∃ servers : Tier → List ServerThread,
    (∀ tier ∈ kAllTiers, ((servers tier).map ServerThread.id).Nodup ∧
      ∀ server, server ∈ servers tier ↔
        s.Keeps key (s.factors key) tier server ∨ s.Keeps key new tier server) ∧
    ((updatesFor messages key).map Prod.fst).Perm ((kAllTiers.flatMap fun tier =>
        (servers tier).map replicationChangeConnectAddress) ++
        s.routingIps.map fun ip => (RoutingThread.mk ip 0).replicationChangeConnectAddress)

/-- The change of a key is taken back. -/
structure Restored (s s' : MonitorState monitor) (messages : List (Address × Message))
    (key : Key) : Prop where
  factors : (s'.factors key).Same (s.factors key)
  updates : updatesFor messages key = []

/-- Each key of the requests is changed, or was reported failed and is restored; all other
entries of the map are as before. -/
def AllOrNothing (out : Surroundings)
    (requests : ExtTreeMap Key KeyReplication) (s' : MonitorState monitor) : Prop :=
  ∃ messages, s'.sent = s.sent ++ messages ∧
    (∀ (key : Key) (new : KeyReplication), requests[key]? = some new →
      (¬ ReportedFailed out messages key ∧ Changed s s' messages key new) ∨
        (ReportedFailed out messages key ∧ Restored s s' messages key)) ∧
    ∀ key, key ∉ requests → s'.keyReplicationMap[key]? = s.keyReplicationMap[key]?

/-- The calls that are all or nothing. -/
structure Changeable (out : Surroundings) (requests : ExtTreeMap Key KeyReplication) : Prop where
  /-- The server for the metadata of a key that changes can be looked up. -/
  stores : ∀ (key : Key) (new : KeyReplication), requests[key]? = some new →
    new.equals (s.factors key) = true ∨ s.toRingMaps.MetadataEnds
  /-- No tier has too few servers for the factors of a key. -/
  tells : ∀ (key : Key) (new : KeyReplication), requests[key]? = some new →
    ¬ s.Fails out requests key → ∀ tier ∈ kAllTiers, s.CanTell new (s.factors key) tier
  /-- Factors that `operator==` takes for equal are the same. -/
  notices : ∀ (key : Key) (new : KeyReplication), requests[key]? = some new →
    ¬ s.Fails out requests key → new.equals (s.factors key) = true → new.Same (s.factors key)
  /-- A key that an answer refuses was asked for, or has an entry without factors. -/
  refuses : ∀ key, s.Fails out requests key → key ∉ requests →
    s.keyReplicationMap[key]? = some default

variable {s}

theorem keeps_iff_mem {rep : KeyReplication} {tier : Tier} {server : ServerThread}
    (h : GlobalFits (s.globalHashRings tier) (rep.globalAt tier)) :
    s.Keeps key rep tier server ↔
      server ∈ (serversFrom key (s.globalHashRings tier)).take (rep.globalAt tier) := by
  unfold Keeps
  rw [responsibleGlobal_of_fits h]
  constructor
  · rintro ⟨_, heq, hmem⟩
    cases heq
    exact hmem
  · intro hmem
    exact ⟨_, rfl, hmem⟩

theorem mem_toldServers {rep : KeyReplication} {server : ServerThread}
    (h : s.CanTell rep orig tier) :
    server ∈ s.toldServers key rep orig tier ↔
      s.Keeps key orig tier server ∨ s.Keeps key rep tier server := by
  have hle : ∀ n ≤ max (rep.globalAt tier) (orig.globalAt tier),
      GlobalFits (s.globalHashRings tier) n := fun n hn => h.imp_right hn.trans
  rw [keeps_iff_mem (hle _ (le_max_right _ _)), keeps_iff_mem (hle _ (le_max_left _ _))]
  unfold toldServers
  constructor
  · intro hmem
    rcases le_total (rep.globalAt tier) (orig.globalAt tier) with hrep | hrep
    · rw [max_eq_right hrep] at hmem
      exact .inl hmem
    · rw [max_eq_left hrep] at hmem
      exact .inr hmem
  · rintro (hmem | hmem)
    · exact (take_subset_take_left _ (le_max_right _ _)) hmem
    · exact (take_subset_take_left _ (le_max_left _ _)) hmem

theorem nodup_toldServers (rep orig : KeyReplication) (tier : Tier) :
    ((s.toldServers key rep orig tier).map ServerThread.id).Nodup := by
  rw [toldServers, map_take]
  exact (nodup_firstVisits (by simp)).sublist (take_sublist _ _)

/-- **A change of factors** is all or nothing for each key just if the call can look up all
servers, `operator==` overlooks no change, and no answer is about another key. -/
theorem changeReplicationFactor_allOrNothing_iff (s : MonitorState monitor) (out : Surroundings)
    (requests : ExtTreeMap Key KeyReplication) :
    (∃ s', s.changeReplicationFactor out requests = .ok s' ∧ AllOrNothing s out requests s') ↔
      Changeable s out requests := by
  constructor
  · rintro ⟨s', h, messages, hsent, hkeys, hothers⟩
    obtain ⟨messages', houtcome⟩ := changeReplicationFactor_eq_ok h
    obtain rfl : messages = messages' := append_cancel_left (hsent.symm.trans houtcome.sent)
    have hchosen : ∀ (key : Key) (new : KeyReplication), requests[key]? = some new →
        ¬ s.Fails out requests key → (chosen new (s.factors key)).Same new := by
      intro key new hrequest hok
      rcases hkeys key new hrequest with ⟨-, hchanged⟩ | ⟨hreported, -⟩
      · exact (houtcome.changed key new hrequest hok).2.1.symm.trans hchanged.factors
      · exact absurd ((houtcome.reported key).mp hreported) hok
    obtain ⟨hstores, hfits⟩ := changeReplicationFactor_returns_iff.mp ⟨s', h⟩
    refine ⟨hstores, fun key new hrequest hok tier htier => ?_,
      fun key new hrequest hok hequals => ?_, fun key hfails hkey => ?_⟩
    · have hcan := hfits key new hrequest hok tier htier
      unfold CanTell at hcan ⊢
      rwa [(hchosen key new hrequest hok tier).1] at hcan
    · have hsame := hchosen key new hrequest hok
      rw [chosen, if_pos hequals] at hsame
      exact hsame.symm
    · have hdefault := (houtcome.restored key hfails).2
      rw [if_neg hkey] at hdefault
      rw [← hothers key hkey, hdefault]
  · intro hcan
    have hchosen : ∀ (key : Key) (new : KeyReplication), requests[key]? = some new →
        ¬ s.Fails out requests key → (chosen new (s.factors key)).Same new := by
      intro key new hrequest hok
      unfold chosen
      split
      · rename_i hequals
        exact (hcan.notices key new hrequest hok hequals).symm
      · exact .refl new
    have hfits : ∀ (key : Key) (new : KeyReplication), requests[key]? = some new →
        ¬ s.Fails out requests key → ∀ tier ∈ kAllTiers,
        s.CanTell (chosen new (s.factors key)) (s.factors key) tier := by
      intro key new hrequest hok tier htier
      unfold CanTell
      rw [(hchosen key new hrequest hok tier).1]
      exact hcan.tells key new hrequest hok tier htier
    obtain ⟨s', h⟩ := changeReplicationFactor_returns_iff.mpr ⟨hcan.stores, hfits⟩
    obtain ⟨messages, houtcome⟩ := changeReplicationFactor_eq_ok h
    refine ⟨s', h, messages, houtcome.sent, fun key new hrequest => ?_, fun key hkey => ?_⟩
    · by_cases hfails : s.Fails out requests key
      · obtain ⟨hnone, hold⟩ := houtcome.restored key hfails
        refine .inr ⟨(houtcome.reported key).mpr hfails, ?_, hnone⟩
        have hkey : key ∈ requests := by
          rw [mem_iff_isSome_getElem?, hrequest]
          rfl
        rw [factors_eq_getD, hold, if_pos hkey]
        exact .refl _
      · obtain ⟨-, hfactors, hupdates, hperm⟩ := houtcome.changed key new hrequest hfails
        have hsame := hchosen key new hrequest hfails
        refine .inl ⟨mt (houtcome.reported key).mp hfails, hfactors.trans hsame,
          fun update hmem => ?_, s.toldServers key new (s.factors key), ?_, ?_⟩
        · obtain ⟨rep, hrep, hupdate⟩ := hupdates update hmem
          exact ⟨rep, hrep.trans hsame, hupdate⟩
        · intro tier htier
          exact ⟨nodup_toldServers _ _ _, fun server =>
            mem_toldServers (hcan.tells key new hrequest hfails tier htier)⟩
        · unfold recipients at hperm
          simpa only [toldServers, (hsame _).1] using hperm
    · by_cases hfails : s.Fails out requests key
      · rw [(houtcome.restored key hfails).2, if_neg hkey, hcan.refuses key hfails hkey]
      · exact houtcome.others key hfails hkey

end MonitorState

/-! ## A request that is overlooked -/

section
variable {D : Type} [Priority D] (codecs : ValueCodecs D) (repCodec : Codec ReplicationFactor)

/-- The monitor of a cluster with one memory node. -/
def soloMonitor : Monitor := { (soloServer codecs repCodec).toConfig with ip := "m" }

/-- It knows the node, and that the key `"k"` has one replica in each tier. -/
def soloMonitoring : MonitorState (soloMonitor codecs repCodec) where
  toRingMaps := (soloState codecs repCodec ∅).toRingMaps
  routingIps := []
  keyReplicationMap := (∅ : ExtTreeMap Key KeyReplication).insert "k" factorsOfK
  rid := 0
  sent := []

end

/-- One replica in the memory tier, and none elsewhere. -/
def memoryOnly : KeyReplication :=
  ⟨fun tier => if tier = .memory then some 1 else none,
    fun tier => if tier = .memory then some 1 else none⟩

/-- A request to give up the replica on disk has no entry for the disk tier, and all the
entries that it has are there already: it is taken to change nothing. -/
theorem request_without_disk_overlooked :
    ∃ (monitor : Monitor) (s s' : MonitorState monitor) (out : Surroundings)
      (requests : ExtTreeMap Key KeyReplication),
      (s.globalHashRings .memory).nodes.nodes ≠ ∅ ∧
      s.changeReplicationFactor out requests = .ok s' ∧
      ¬ MonitorState.AllOrNothing s out requests s' := by
  obtain ⟨codecs, repCodec⟩ := exists_codecs
  let s := soloMonitoring codecs repCodec
  let out : Surroundings := ⟨fun _ => 0, fun _ => 0, fun _ => none⟩
  let requests := (∅ : ExtTreeMap Key KeyReplication).insert "k" memoryOnly
  have hrequest : ∀ key new, requests[key]? = some new → key = "k" ∧ new = memoryOnly := by
    intro key new h
    rw [ExtTreeMap.getElem?_insert] at h
    split at h
    · rename_i heq
      exact ⟨(Std.compare_eq_iff_eq.mp heq).symm, (Option.some.inj h).symm⟩
    · rw [getElem?_empty] at h
      cases h
  have hfactors : s.factors "k" = factorsOfK := getD_insert_self
  have hequals : memoryOnly.equals factorsOfK = true := by decide
  have hfails : ¬ s.Fails out requests "k" := by
    rintro ⟨k, new, a, hk, hasked, -⟩
    obtain ⟨rfl, rfl⟩ := hrequest k new hk
    exact hasked.1 (hfactors ▸ hequals)
  have hchosen : MonitorState.chosen memoryOnly (s.factors "k") = factorsOfK := by
    rw [hfactors, MonitorState.chosen, if_pos hequals]
  obtain ⟨s', h⟩ : ∃ s', s.changeReplicationFactor out requests = .ok s' := by
    refine MonitorState.changeReplicationFactor_returns_iff.mpr ⟨fun key new hk => ?_,
      fun key new hk _ tier _ => ?_⟩
    · obtain ⟨rfl, rfl⟩ := hrequest key new hk
      exact .inl (hfactors ▸ hequals)
    · obtain ⟨rfl, rfl⟩ := hrequest key new hk
      exact GlobalFits.one _
  refine ⟨_, s, s', out, requests, ?_, h, ?_⟩
  · exact (soloState_metadataServed codecs repCodec ∅).server
  · rintro ⟨messages, hsent, hkeys, -⟩
    obtain ⟨messages', houtcome⟩ := MonitorState.changeReplicationFactor_eq_ok h
    obtain rfl : messages = messages' := append_cancel_left (hsent.symm.trans houtcome.sent)
    have hk : requests["k"]? = some memoryOnly := getElem?_insert_self
    rcases hkeys "k" memoryOnly hk with ⟨-, hchanged⟩ | ⟨hreported, -⟩
    · have hsame := (houtcome.changed "k" memoryOnly hk hfails).2.1.symm.trans hchanged.factors
      rw [hchosen] at hsame
      exact absurd (hsame .disk).1 (by decide)
    · exact hfails ((houtcome.reported "k").mp hreported)

end Testbed.Anna
