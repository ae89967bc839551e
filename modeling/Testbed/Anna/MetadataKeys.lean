import Testbed.Anna.Departures

/-! # Metadata keys

`metadata.hpp` and `common.hpp` build five kinds of metadata keys: the identifier, the name of the
kind and the arguments, joined by a delimiter.  The name has no delimiter in it, so that the kinds
are told apart (`MetadataParts.name_eq`), whatever the arguments are.  What follows the name of a
replication or cache key is the data key, delimiters and all; a key of server statistics is split
at every delimiter, so that its addresses must not have one.
-/
namespace Testbed.Anna

/-- The kinds of `get_metadata_key` for a thread: `server_stats`, `key_access`, `key_size`. -/
inductive StatisticsType where
  | serverStats | keyAccess | keySize
  deriving DecidableEq, Repr

/-- `metadata_type`. -/
def StatisticsType.name : StatisticsType → String
  | .serverStats => "stats"
  | .keyAccess => "access"
  | .keySize => "size"

theorem StatisticsType.notMem_name (type : StatisticsType) : '|' ∉ type.name.toList := by
  cases type <;> decide

theorem StatisticsType.name_ne (type : StatisticsType) :
    type.name ≠ "replication" ∧ type.name ≠ "cache_ip" := by
  cases type <;> decide

theorem StatisticsType.name_injective : Function.Injective StatisticsType.name := by
  intro type type' h
  cases type <;> cases type' <;> first | rfl | exact absurd h (by decide)

/-- `get_metadata_key` of a thread. -/
def getStatisticsKey (st : ServerThread) (tierId : Tier) (threadNum : Nat)
    (type : StatisticsType) : Key :=
  kMetadataIdentifier ++ "|" ++ type.name ++ "|" ++ st.publicIp ++ "|" ++ st.privateIp ++ "|" ++
    toString threadNum ++ "|" ++ tierName tierId

def splitMetadataKey (key : Key) : List String := split key '|'

/-- What a metadata key is built from. -/
inductive MetadataParts where
  | replication (key : Key)
  | cacheIp (key : Key)
  | statistics (type : StatisticsType) (publicIp privateIp : Address) (threadNum : Nat)
    (tier : Tier)

namespace MetadataParts

/-- The five constructors. -/
def key : MetadataParts → Key
  | replication key => getMetadataKey key
  | cacheIp key => getUserMetadataKey key
  | statistics type publicIp privateIp threadNum tier =>
    getStatisticsKey { publicIp, privateIp, tid := 0 } tier threadNum type

/-- The constructor. -/
def name : MetadataParts → String
  | replication _ => "replication"
  | cacheIp _ => "cache_ip"
  | statistics type _ _ _ _ => type.name

/-- The addresses have no delimiter in them. -/
def Plain : MetadataParts → Prop
  | statistics _ publicIp privateIp _ _ => '|' ∉ publicIp.toList ∧ '|' ∉ privateIp.toList
  | _ => True

/-- What follows the name. -/
def payload : MetadataParts → List Char
  | replication key | cacheIp key => key.toList
  | statistics _ publicIp privateIp threadNum tier =>
    publicIp.toList ++ '|' :: (privateIp.toList ++ '|' :: ((toString threadNum).toList ++
      '|' :: (tierName tier).toList))

theorem toList_key (parts : MetadataParts) : parts.key.toList =
    kMetadataIdentifier.toList ++ '|' :: (parts.name.toList ++ '|' :: parts.payload) := by
  cases parts <;>
    simp only [key, name, payload, getMetadataKey, getUserMetadataKey, getStatisticsKey,
      String.toList_append, List.append_assoc] <;> rfl

theorem notMem_name (parts : MetadataParts) : '|' ∉ parts.name.toList := by
  rcases parts with _ | _ | ⟨type, -⟩
  · exact (by decide : '|' ∉ "replication".toList)
  · exact (by decide : '|' ∉ "cache_ip".toList)
  · exact type.notMem_name

/-- **The kinds are told apart**: no two of the constructors have a key in common. -/
theorem name_eq {parts parts' : MetadataParts} (h : parts.key = parts'.key) :
    parts.name = parts'.name ∧ parts.payload = parts'.payload := by
  have hchars := congrArg String.toList h
  rw [toList_key, toList_key] at hchars
  have hrest := (List.cons.inj (List.append_cancel_left hchars)).2
  have hname := congrArg (List.takeWhile (· != '|')) hrest
  rw [takeWhile_delimiter parts.notMem_name, takeWhile_delimiter parts'.notMem_name] at hname
  rw [hname] at hrest
  exact ⟨String.toList_injective hname, (List.cons.inj (List.append_cancel_left hrest)).2⟩

end MetadataParts

theorem splitMetadataKey_getStatisticsKey {st : ServerThread} (hpublic : '|' ∉ st.publicIp.toList)
    (hprivate : '|' ∉ st.privateIp.toList) (tierId : Tier) (threadNum : Nat)
    (type : StatisticsType) :
    splitMetadataKey (getStatisticsKey st tierId threadNum type) =
      [kMetadataIdentifier, type.name, st.publicIp, st.privateIp, toString threadNum,
        tierName tierId] := by
  have hid : '|' ∉ kMetadataIdentifier.toList := by decide
  have htype := type.notMem_name
  have hnum : '|' ∉ (toString threadNum).toList := Lib.Text.notMem_toString (by decide) threadNum
  have hlast : splitLoop '|' [] (tierName tierId).toList = [tierName tierId] := by
    cases tierId <;> decide
  have hkey := MetadataParts.toList_key (.statistics type st.publicIp st.privateIp threadNum tierId)
  refine (congrArg (splitLoop '|' []) hkey).trans ?_
  simp only [MetadataParts.name, MetadataParts.payload, splitLoop_append hid,
    splitLoop_append htype, splitLoop_append hpublic, splitLoop_append hprivate,
    splitLoop_append hnum, hlast, List.nil_append, String.ofList_toList]

theorem tierName_injective : Function.Injective tierName := by
  intro tier tier' h
  cases tier <;> cases tier' <;> first | rfl | exact absurd h (by decide)

/-- **The constructors are injective.** -/
theorem MetadataParts.key_injective {parts parts' : MetadataParts} (hplain : parts.Plain)
    (hplain' : parts'.Plain) (h : parts.key = parts'.key) : parts = parts' := by
  obtain ⟨hname, hpayload⟩ := name_eq h
  rcases parts with k | k | ⟨type, publicIp, privateIp, threadNum, tier⟩
  all_goals rcases parts' with k' | k' | ⟨type', publicIp', privateIp', threadNum', tier'⟩
  · rw [String.toList_injective hpayload]
  · exact absurd hname (by decide : "replication" ≠ "cache_ip")
  · exact absurd hname.symm type'.name_ne.1
  · exact absurd hname (by decide : "cache_ip" ≠ "replication")
  · rw [String.toList_injective hpayload]
  · exact absurd hname.symm type'.name_ne.2
  · exact absurd hname type.name_ne.1
  · exact absurd hname type.name_ne.2
  · have hsplit := congrArg splitMetadataKey h
    simp only [key] at hsplit
    rw [splitMetadataKey_getStatisticsKey hplain.1 hplain.2,
      splitMetadataKey_getStatisticsKey hplain'.1 hplain'.2] at hsplit
    simp only [List.cons.injEq, and_true, true_and] at hsplit
    obtain ⟨htype, rfl, rfl, hnum, htier⟩ := hsplit
    rw [StatisticsType.name_injective htype, Lib.Text.toString_injective hnum,
      tierName_injective htier]

/-- **Metadata keys decode uniquely.** -/
theorem metadata_keys_decode : (∀ k, getKeyFromMetadata (getMetadataKey k) = k ∧
      getKeyFromUserMetadata (getUserMetadataKey k) = k) ∧
    (∀ (st : ServerThread) (tierId : Tier) (threadNum : Nat) (type : StatisticsType),
      '|' ∉ st.publicIp.toList → '|' ∉ st.privateIp.toList →
      splitMetadataKey (getStatisticsKey st tierId threadNum type) =
        [kMetadataIdentifier, type.name, st.publicIp, st.privateIp, toString threadNum,
          tierName tierId]) ∧
    (∀ parts parts' : MetadataParts, parts.name ≠ parts'.name → parts.key ≠ parts'.key) ∧
    ∀ parts parts' : MetadataParts, parts.Plain → parts'.Plain → parts.key = parts'.key →
      parts = parts' :=
  ⟨fun k => ⟨getKeyFromMetadata_getMetadataKey k, getKeyFromUserMetadata_getUserMetadataKey k⟩,
    fun _ tierId threadNum type hpublic hprivate =>
      splitMetadataKey_getStatisticsKey hpublic hprivate tierId threadNum type,
    fun _ _ hname hkey => hname (MetadataParts.name_eq hkey).1,
    fun _ _ hplain hplain' hkey => MetadataParts.key_injective hplain hplain' hkey⟩

/-- The key `a|b`, and the statistics of a memory node. -/
theorem metadata_keys_decode_two : getKeyFromMetadata (getMetadataKey "a|b") = "a|b" ∧
      splitMetadataKey (getStatisticsKey ⟨"A", "a", 0, 0⟩ .memory 3 .keyAccess) =
        ["ANNA_METADATA", "access", "A", "a", "3", "MEMORY"] :=
  ⟨(metadata_keys_decode.1 "a|b").1,
    metadata_keys_decode.2.1 ⟨"A", "a", 0, 0⟩ .memory 3 .keyAccess (by decide) (by decide)⟩

/-- **A key is classified by what stands before its first delimiter**, unless it is empty. -/
theorem isMetadata_classifies_iff (key : Key) : isMetadata key =
        .ok (decide (String.ofList (key.toList.takeWhile (· ≠ '|')) = "ANNA_METADATA")) ↔
      key ≠ "" := by
  constructor
  · rintro h rfl
    exact nomatch h
  · exact isMetadata_eq_ok

/-- The first part of an empty key is read out of range. -/
theorem isMetadata_empty : ¬ ∀ key : Key, isMetadata key =
      .ok (decide (String.ofList (key.toList.takeWhile (· ≠ '|')) = "ANNA_METADATA")) :=
  fun h => nomatch h ""

end Testbed.Anna
