import Testbed.Lib.Text

/-! # Threads, keys and messages

The vocabulary that the key-value store's components share: server threads and
their addresses (`kvs_threads.hpp`), the protobuf messages of `anna.proto` and
`metadata.proto`, and the keys under which the store keeps its own metadata
(`metadata.hpp`).

A thread is identified by the text `id`; `ServerThread.id_inj` takes it apart
again.  A metadata key names the key it is about, and `getKeyFromMetadata`
recovers it whatever characters that key has (`getKeyFromMetadata_getMetadataKey`).
-/
namespace Testbed.Anna

open List

/-- An IP, or an IP with scheme and port. -/
abbrev Address := String

/-- A key of the store. -/
abbrev Key := String

/-- Why a call does not return: a loop that never ends, or one of the ways in
which the process stops. -/
inductive Fault where
  | nonTermination
  | divisionByZero
  | nullSerializer
  | outOfRange
  | invalidArgument
deriving DecidableEq, Repr

/-! ## Server threads -/

/-- `ServerThread`.  The two address bases are functions of the IPs. -/
@[ext] structure ServerThread where
  publicIp : Address
  privateIp : Address
  tid : Nat
  virtualNum : Nat := 0
deriving DecidableEq, Repr

namespace ServerThread

variable (th : ServerThread)

def id : String := th.privateIp ++ ":" ++ toString th.tid

def virtualId : String :=
  th.privateIp ++ ":" ++ toString th.tid ++ "_" ++ toString th.virtualNum

def publicBase : Address := "tcp://" ++ th.publicIp ++ ":"

def privateBase : Address := "tcp://" ++ th.privateIp ++ ":"

def nodeJoinConnectAddress : Address :=
  th.privateBase ++ toString (th.tid + 6000)

def nodeDepartConnectAddress : Address :=
  th.privateBase ++ toString (th.tid + 6050)

def selfDepartConnectAddress : Address :=
  th.privateBase ++ toString (th.tid + 6100)

def replicationResponseConnectAddress : Address :=
  th.privateBase ++ toString (th.tid + 6150)

def keyRequestConnectAddress : Address :=
  th.publicBase ++ toString (th.tid + 6200)

def gossipConnectAddress : Address :=
  th.privateBase ++ toString (th.tid + 6250)

def replicationChangeConnectAddress : Address :=
  th.privateBase ++ toString (th.tid + 6300)

def cacheIpResponseConnectAddress : Address :=
  th.privateBase ++ toString (th.tid + 7050)

/-- `operator==` compares the ids: public IP and virtual number do not count. -/
def equals (l r : ServerThread) : Bool := l.id == r.id

/-- `std::find(threads.begin(), threads.end(), wt) != threads.end()`. -/
def isIn (wt : ServerThread) (threads : List ServerThread) : Bool := threads.any (·.equals wt)

/-- The id determines the private IP and the thread number: no decimal number
has a colon in it. -/
theorem id_inj {l r : ServerThread} : l.id = r.id ↔ l.privateIp = r.privateIp ∧ l.tid = r.tid := by
  constructor
  · intro h
    have hchars := congrArg String.toList h
    simp only [id, String.toList_append, append_assoc] at hchars
    obtain ⟨hip, htid⟩ := Lib.Text.append_cons_inj
      (Lib.Text.notMem_toString (by decide) _) (Lib.Text.notMem_toString (by decide) _) hchars
    exact ⟨String.toList_injective hip, Lib.Text.toString_injective (String.toList_injective htid)⟩
  · rintro ⟨hip, htid⟩
    rw [id, id, hip, htid]

end ServerThread

structure RoutingThread where
  ip : Address
  tid : Nat
deriving DecidableEq, Repr

def RoutingThread.replicationResponseConnectAddress (rt : RoutingThread) : Address :=
  "tcp://" ++ rt.ip ++ ":" ++ toString (rt.tid + 6500)

def RoutingThread.replicationChangeConnectAddress (rt : RoutingThread) : Address :=
  "tcp://" ++ rt.ip ++ ":" ++ toString (rt.tid + 6550)

/-! ## Protobuf messages -/

inductive Tier where
  | tierUnspecified | memory | disk | routing
deriving DecidableEq, Repr, Inhabited

/-- `kAllTiers`: the tiers that store data. -/
def kAllTiers : List Tier := [.memory, .disk]

/-- `RequestType`; a number outside the enumeration behaves like
`rtUnspecified`. -/
inductive RequestType where
  | rtUnspecified | get | put
deriving DecidableEq, Repr, Inhabited

inductive LatticeType where
  | none | lww | set | singleCausal | multiCausal | orderedSet | priority
deriving DecidableEq, Repr, Inhabited

inductive AnnaError where
  | noError | keyDne | wrongThread | timeout | lattice | noServers
deriving DecidableEq, Repr, Inhabited

/-- `KeyTuple`, with protobuf's defaults for unset fields. -/
structure KeyTuple where
  key : Key := ""
  latticeType : LatticeType := .none
  error : AnnaError := .noError
  payload : String := ""
  addressCacheSize : Nat := 0
  invalidate : Bool := false
deriving DecidableEq, Repr

structure KeyRequest where
  type : RequestType := .rtUnspecified
  tuples : List KeyTuple := []
  responseAddress : Address := ""
  requestId : String := ""
deriving DecidableEq, Repr

structure KeyResponse where
  type : RequestType := .rtUnspecified
  tuples : List KeyTuple := []
  responseId : String := ""
  error : AnnaError := .noError
deriving DecidableEq, Repr

structure KeyAddressRequest where
  responseAddress : Address := ""
  keys : List Key := []
  requestId : String := ""
deriving DecidableEq, Repr

/-- `KeyAddressResponse.KeyAddress`: the addresses of the threads that keep a key. -/
structure KeyAddress where
  key : Key := ""
  ips : List Address := []
deriving DecidableEq, Repr

structure KeyAddressResponse where
  addresses : List KeyAddress := []
  error : AnnaError := .noError
  responseId : String := ""
deriving DecidableEq, Repr

/-- `ReplicationFactor`: the replication levels of a key, by tier, across and
within nodes. -/
structure ReplicationFactor where
  key : Key := ""
  globalValues : List (Tier × Nat) := []
  localValues : List (Tier × Nat) := []
deriving DecidableEq, Repr, Inhabited

def prepareGetTuple (req : KeyRequest) (key : Key) (latticeType : LatticeType) : KeyRequest :=
  { req with tuples := req.tuples ++ [{ key, latticeType }] }

def preparePutTuple (req : KeyRequest) (key : Key) (latticeType : LatticeType)
    (payload : String) : KeyRequest :=
  { req with tuples := req.tuples ++ [{ key, latticeType, payload }] }

/-! ## Metadata keys -/

/-- The loop of `split`: `item` is what `getline` has read since the last
delimiter.  At the end of the stream an empty item is not a line. -/
def splitLoop (delim : Char) (item : List Char) : List Char → List String
  | [] => if item = [] then [] else [String.ofList item]
  | c :: cs =>
    if c = delim then String.ofList item :: splitLoop delim [] cs
    else splitLoop delim (item ++ [c]) cs

def split (s : String) (delim : Char) : List String := splitLoop delim [] s.toList

def kMetadataIdentifier : String := "ANNA_METADATA"

/-- `is_metadata`: an empty key has no first part to look at. -/
def isMetadata (key : Key) : Except Fault Bool :=
  match split key '|' with
  | [] => .error .outOfRange
  | v :: _ => .ok (v == kMetadataIdentifier)

/-- The first part is what stands before the first delimiter. -/
theorem head?_splitLoop (delim : Char) {item cs : List Char} (h : item ≠ [] ∨ cs ≠ []) :
    (splitLoop delim item cs).head? = some (String.ofList (item ++ cs.takeWhile (· ≠ delim))) := by
  induction cs generalizing item with
  | nil =>
    rw [splitLoop, if_neg (h.resolve_right fun hne => hne rfl), takeWhile_nil, append_nil]
    rfl
  | cons c cs ih =>
    rw [splitLoop, takeWhile_cons]
    by_cases hc : c = delim
    · rw [if_pos hc, if_neg (by simp [hc]), append_nil]
      rfl
    · have hitem := append_ne_nil_of_right_ne_nil item (cons_ne_nil c [])
      rw [if_neg hc, if_pos (by simp [hc]), ih (Or.inl hitem), append_assoc]
      rfl

theorem splitLoop_append {delim : Char} {item text rest : List Char} (h : delim ∉ text) :
    splitLoop delim item (text ++ delim :: rest) =
      String.ofList (item ++ text) :: splitLoop delim [] rest := by
  induction text generalizing item with
  | nil =>
    rw [nil_append, splitLoop, if_pos rfl, append_nil]
  | cons c text ih =>
    obtain ⟨hc, htext⟩ := not_or.mp (mt mem_cons.mpr h)
    rw [cons_append, splitLoop, if_neg (Ne.symm hc), ih htext, append_assoc]
    rfl

theorem isMetadata_eq_ok {key : Key} (h : key ≠ "") : isMetadata key =
      .ok (String.ofList (key.toList.takeWhile (· ≠ '|')) == kMetadataIdentifier) := by
  have hchars : key.toList ≠ [] := fun hnil => h (String.toList_injective hnil)
  obtain ⟨parts, hparts⟩ := head?_eq_some_iff.mp (head?_splitLoop '|' (Or.inr hchars))
  rw [isMetadata, Anna.split, hparts]
  rfl

theorem isMetadata_returns {key : Key} (h : key ≠ "") : ∃ metadata, isMetadata key = .ok metadata :=
  ⟨_, isMetadata_eq_ok h⟩

/-- `get_metadata_key` of a data key, at `MetadataType::replication`. -/
def getMetadataKey (dataKey : Key) : Key :=
  kMetadataIdentifier ++ "|" ++ "replication" ++ "|" ++ dataKey

/-- What follows the first delimiter.  `find` returns the greatest position when
there is none, and the position after it is `0` again: the whole text. -/
def afterDelimiter (cs whole : List Char) : List Char :=
  match cs.dropWhile (· != '|') with
  | [] => whole
  | _ :: rest => rest

def getKeyFromMetadata (metadataKey : Key) : Key :=
  let cs := metadataKey.toList
  let fromType := afterDelimiter cs cs
  if String.ofList (fromType.takeWhile (· != '|')) = "replication" then
    String.ofList (afterDelimiter fromType cs)
  else ""

section
variable {text rest : List Char} (h : '|' ∉ text)
include h

theorem bne_delimiter : ∀ c ∈ text, (c != '|') = true := by
  intro c hc
  rw [bne_iff_ne]
  rintro rfl
  exact h hc

theorem afterDelimiter_append (whole : List Char) :
    afterDelimiter (text ++ '|' :: rest) whole = rest := by
  unfold afterDelimiter
  rw [dropWhile_append_of_pos (bne_delimiter h)]
  rfl

theorem takeWhile_delimiter : (text ++ '|' :: rest).takeWhile (· != '|') = text := by
  rw [takeWhile_append_of_pos (bne_delimiter h)]
  exact append_nil text

end

theorem afterDelimiter_metadata (type key : String) (whole : List Char) :
    afterDelimiter (kMetadataIdentifier ++ "|" ++ type ++ "|" ++ key).toList whole =
      type.toList ++ '|' :: key.toList := by
  have hid : '|' ∉ "ANNA_METADATA".toList := by decide
  simp only [kMetadataIdentifier, String.toList_append, append_assoc]
  exact afterDelimiter_append hid whole

theorem getKeyFromMetadata_getMetadataKey (key : Key) :
    getKeyFromMetadata (getMetadataKey key) = key := by
  have htype : '|' ∉ "replication".toList := by decide
  simp only [getKeyFromMetadata, getMetadataKey, afterDelimiter_metadata,
    afterDelimiter_append htype, takeWhile_delimiter htype, String.ofList_toList, if_true]

/-- `get_user_metadata_key`, at `UserMetadataType::cache_ip`. -/
def getUserMetadataKey (dataKey : Key) : Key :=
  kMetadataIdentifier ++ "|" ++ "cache_ip" ++ "|" ++ dataKey

def getKeyFromUserMetadata (metadataKey : Key) : Key :=
  let cs := metadataKey.toList
  let fromType := afterDelimiter cs cs
  if String.ofList (fromType.takeWhile (· != '|')) = "cache_ip" then
    String.ofList (afterDelimiter fromType cs)
  else ""

theorem getKeyFromUserMetadata_getUserMetadataKey (key : Key) :
    getKeyFromUserMetadata (getUserMetadataKey key) = key := by
  have htype : '|' ∉ "cache_ip".toList := by decide
  simp only [getKeyFromUserMetadata, getUserMetadataKey, afterDelimiter_metadata,
    afterDelimiter_append htype, takeWhile_delimiter htype, String.ofList_toList, if_true]

end Testbed.Anna
