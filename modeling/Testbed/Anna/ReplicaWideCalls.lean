import Testbed.Anna.ClientLattices
import Testbed.Anna.MemorySerializers

/-! # Calls to all replicas

`get_all` and `put_all` of the Python client are to reach every replica of a key.  Both pass
the key itself to `_prepare_data_request`, which expects a list of keys, and so get a request
about the characters of the key.  `get_all` then waits for the last of its requests only, and
`put_all` sets the payload of a list.  Where two values do come in, `get_all` merges them and
drops the result.  A value is read with `_deserialize`, which raises for causal values: a
`VectorClock` is to be made of a `dict`, and what protobuf has is none.

So `get_all` does what it should for keys of one character with one replica, if that has a value of
another type or none, and `put_all` always raises (`replica_wide_calls_cover_iff`).
-/
namespace Testbed.Anna

open Std (ExtTreeMap)
open ClientLattices
open List

/-! ## Values -/

/-- What `_deserialize` can return. -/
inductive ClientValue (D : Type)
  | lww (pair : TimestampValuePair)
  | set (s : SetLattice String)
  | orderedSet (s : SetLattice String)
  | priority (pair : PriorityValuePair D)

variable {D : Type} [Priority D] (codecs : ValueCodecs D)

/-- `merge`: only the sets test the class of the other value. -/
def ClientValue.merge : ClientValue D → ClientValue D → Except Raised (ClientValue D)
  | .lww a, .lww b => return .lww (← mergeLWW a b)
  | .set a, .set b => return .set (← mergeSet a b)
  | .orderedSet a, .orderedSet b => return .orderedSet (← mergeOrderedSet a b)
  | .priority a, .priority b => return .priority (← mergePriority a b)
  | .set _, _ | .orderedSet _, _ => .error .valueError
  | .lww _, _ | .priority _, _ => .error .attributeError

/-! ## The calls -/

/-- What the calls read of an `AnnaTcpClient`. -/
structure PythonClient where
  ip : String
  responseAddress : Address
  addressCache : ExtTreeMap Key (List Address)
  rid : Nat

namespace PythonClient

/-- `ParseFromString` in Python. -/
def parse {M : Type} [Inhabited M] (codec : Codec M) (payload : String) : Except Raised M :=
  let (message, good) := codec.parseFromString payload
  if good then return message else .error .decodeError

/-- `_deserialize`.  No tuple of a response is a `CausalTuple`. -/
def deserialize (tup : KeyTuple) : Except Raised (ClientValue D) := do
  match tup.latticeType with
  | .lww => return .lww (toLww (← parse codecs.lww tup.payload))
  | .set => return .set (toSet (← parse codecs.set tup.payload))
  | .orderedSet => return .orderedSet (toSet (← parse codecs.set tup.payload))
  | .singleCausal =>
    let _ ← parse codecs.singleCausal tup.payload
    .error .valueError
  | .multiCausal =>
    let _ ← parse codecs.multiCausal tup.payload
    .error .valueError
  | .priority => return .priority (toPriority (← parse codecs.priority tup.payload))
  | .none => .error .valueError

variable (c : PythonClient)

def getRequestId : String × PythonClient :=
  (c.ip ++ ":" ++ toString c.rid, { c with rid := (c.rid + 1) % 10000 })

def prepareDataRequest (keys : List Key) : KeyRequest × PythonClient :=
  let (requestId, c) := c.getRequestId
  let tuples := keys.map fun key =>
    { key, addressCacheSize := (c.addressCache.getD key []).length : KeyTuple }
  ({ requestId, responseAddress := c.responseAddress, tuples }, c)

variable (key : Key)

/-- The keys that a loop over a string sees. -/
def charactersOf : List Key := key.toList.map String.singleton

/-- The loop that sends a request to all addresses, with a new id each time. -/
def sendAll (c : PythonClient) (req : KeyRequest) : List Address → List (Address × KeyRequest)
  | [] => []
  | address :: addresses =>
    let (requestId, c) := c.getRequestId
    (address, { req with requestId }) :: c.sendAll req addresses

/-- `recv_response`: the first responses to the requests, as many as there are ids.  It waits
for ever when there are fewer. -/
def recvResponse (reqIds : List String) (arrived : List KeyResponse) : Option (List KeyResponse) :=
  let responses := (arrived.filter (·.responseId ∈ reqIds)).take reqIds.length
  if responses.length < reqIds.length then none else some responses

/-- A call: what it sends, the ids it waits for, and what it makes of the responses. -/
structure Call (α : Type) where
  sent : List (Address × KeyRequest)
  reqIds : List String
  finish : List KeyResponse → Except Raised α

def invalidateCache : Except Raised PythonClient :=
  if key ∈ c.addressCache then return { c with addressCache := c.addressCache.erase key }
  else .error .keyError

/-- A tuple that asks for it invalidates the cache. -/
def invalidateBy (tup : KeyTuple) : Except Raised PythonClient :=
  if tup.invalidate then c.invalidateCache tup.key else return c

/-- A tuple of a response to `get_all([key])`; `kv_pairs` has the one key. -/
def getAllTuple (key : Key) (acc : PythonClient × Option (ClientValue D)) (tup : KeyTuple) :
    Except Raised (PythonClient × Option (ClientValue D)) := do
  let c ← acc.1.invalidateBy tup
  if tup.error = .noError then
    let value ← deserialize codecs tup
    if tup.key ≠ key then .error .keyError
    else
      match acc.2 with
      | some kept =>
        -- what `merge` returns is not kept
        let _ ← kept.merge value
        return (c, some kept)
      | none => return (c, some value)
  else return (c, acc.2)

/-- The loops over the responses. -/
def getAllFinish (key : Key) (c : PythonClient) (responses : List KeyResponse) :
    Except Raised (Option (ClientValue D)) := do
  let tuples := responses.flatMap (·.tuples)
  let (_, value) ← tuples.foldlM (getAllTuple codecs key) (c, none)
  return value

/-- `get_all([key])`, when the addresses of the key are known. -/
def getAll (c : PythonClient) (key : Key) (addresses : List Address) :
    Call (Option (ClientValue D)) :=
  let (req, c) := c.prepareDataRequest (charactersOf key)
  let sent := c.sendAll { req with type := .get } addresses
  { sent
    -- `req_ids.append` stands behind the loop over the addresses
    reqIds := [(sent.getLast?.map (·.2.requestId)).getD req.requestId]
    finish := getAllFinish codecs key c }

/-- `tup.payload, tup.lattice_type = ...`: here `tup` is a list. -/
def setPayload (_tuples : List KeyTuple) (_payload : String) : Except Raised (List KeyTuple) :=
  .error .attributeError

/-- A response to `put_all`, while all before it were good.  There is no `durable_put`. -/
def putAllResponse (good : Bool) (response : KeyResponse) : Except Raised Bool :=
  if !good then return false
  else
    match response.tuples with
    | [] => .error .indexError
    | tup :: _ =>
      if tup.invalidate then .error .attributeError else return tup.error = .noError

variable (addresses : List Address) (payload : String)

/-- `put_all`, with the serialized value. -/
def putAll : Except Raised (Call Bool) := do
  let (req, c) := c.prepareDataRequest (charactersOf key)
  let tuples ← setPayload req.tuples payload
  let sent := c.sendAll { req with type := .put, tuples } addresses
  return { sent, reqIds := sent.map (·.2.requestId), finish := (·.foldlM putAllResponse true) }

/-! ## What they should do -/

/-- One request of this type, for the key only, goes to each address, and all are waited for. -/
structure Reaches {α : Type} (call : Call α) (type : RequestType) (key : Key)
    (addresses : List Address) : Prop where
  addresses : call.sent.map Prod.fst = addresses
  requests : ∀ message ∈ call.sent,
    message.2.type = type ∧ message.2.tuples.map KeyTuple.key = [key]
  waits : call.reqIds = call.sent.map (·.2.requestId)

/-- The response of a replica, which gives its reply for each key that it is asked for. -/
def respondTo (reply : Address → KeyTuple) (message : Address × KeyRequest) : KeyResponse where
  responseId := message.2.requestId
  tuples := message.2.tuples.map fun tup => { reply message.1 with key := tup.key }

/-- The merge of some values. -/
def mergeAll : List (ClientValue D) → Except Raised (Option (ClientValue D))
  | [] => return none
  | v :: values => return some (← values.foldlM ClientValue.merge v)

/-- `get_all([key])` reaches all replicas, and returns the merge of the values in their
responses, in whatever order they arrive. -/
def GetAllCovers (reply : Address → KeyTuple) (c : PythonClient) (key : Key)
    (addresses : List Address) : Prop :=
  let call := c.getAll codecs key addresses
  Reaches call .get key addresses ∧
    ∀ arrived, arrived.Perm (call.sent.map (respondTo reply)) →
      ∃ responses values merged, recvResponse call.reqIds arrived = some responses ∧
        ((arrived.flatMap (·.tuples)).filter (·.error = .noError)).mapM (deserialize codecs) =
          .ok values ∧
        mergeAll values = .ok merged ∧ call.finish responses = .ok merged

/-- `put_all` reaches all replicas, and returns whether all responses are good. -/
def PutAllCovers : Prop :=
  ∃ call, c.putAll key addresses payload = .ok call ∧ Reaches call .put key addresses ∧
    ∀ responses, call.finish responses = .ok true ↔
      ∀ response ∈ responses, ∀ tup ∈ response.tuples, tup.error = .noError ∧ tup.invalidate = false

/-! ## What they do -/

variable {c : PythonClient} {key : Key} {codecs}

theorem charactersOf_eq_iff : charactersOf key = [key] ↔ key.length = 1 := by
  rw [← String.length_toList]
  constructor
  · intro h
    simpa [charactersOf] using congrArg List.length h
  · intro h
    obtain ⟨ch, hch⟩ := length_eq_one_iff.mp h
    have hkey : key = String.singleton ch := by
      rw [← String.ofList_toList (s := key), hch]
      rfl
    rw [charactersOf, hch, hkey]
    rfl

theorem one_of_reaches {first : Address} {rest : List Address}
    (h : Reaches (c.getAll codecs key (first :: rest)) .get key (first :: rest)) :
    key.length = 1 ∧ rest = [] := by
  constructor
  · have htuples := (h.requests _ mem_cons_self).2
    rw [← charactersOf_eq_iff]
    refine Eq.trans ?_ htuples
    simp only [map_map]
    exact (map_id _).symm
  · have hcount := congrArg List.length h.waits
    rw [length_map, ← length_map Prod.fst, h.addresses] at hcount
    exact length_eq_zero_iff.mp (Nat.succ.inj hcount.symm)

/-- The value in the reply, if it has one, can be read. -/
def Decodable (codecs : ValueCodecs D) (tup : KeyTuple) : Prop :=
  tup.error = .noError → ∃ value, deserialize codecs tup = .ok value

theorem invalidateBy_returns {tup : KeyTuple} (hkey : tup.key = key)
    (hknown : key ∈ c.addressCache) : ∃ c', c.invalidateBy tup = .ok c' := by
  rw [invalidateBy, invalidateCache, hkey, if_pos hknown]
  split
  · exact ⟨_, rfl⟩
  · exact ⟨c, rfl⟩

/-- **One response with one tuple** is read just if its value can be read. -/
theorem getAllFinish_iff {response : KeyResponse} {tup : KeyTuple}
    (htuples : response.tuples = [tup])
    (hkey : tup.key = key) (hknown : key ∈ c.addressCache) :
    (∃ values merged, (([response].flatMap (·.tuples)).filter (·.error = .noError)).mapM
      (deserialize codecs) = .ok values ∧ mergeAll values = .ok merged ∧
      getAllFinish codecs key c [response] = .ok merged) ↔ Decodable codecs tup := by
  obtain ⟨c', hc'⟩ := invalidateBy_returns hkey hknown
  have hfinish : getAllFinish codecs key c [response] =
      (getAllTuple codecs key (c, none) tup).map Prod.snd := by
    simp only [getAllFinish, flatMap_cons, flatMap_nil, append_nil, htuples, foldlM_cons]
    cases getAllTuple codecs key (c, none) tup <;> rfl
  rw [hfinish, getAllTuple, hc', Decodable, flatMap_singleton, htuples]
  by_cases herror : tup.error = .noError
  · cases hvalue : deserialize codecs tup with
    | error raised => simp [herror, hvalue, bind, Except.bind]
    | ok value =>
      simp [herror, hvalue, hkey, mergeAll, bind, Except.bind, pure, Except.pure, Except.map]
  · simp [herror, mergeAll, bind, Except.bind, pure, Except.pure, Except.map]

theorem getAll_covers_iff (reply : Address → KeyTuple) (hkey : key.length = 1) (address : Address)
    (hknown : key ∈ c.addressCache) :
    GetAllCovers codecs reply c key [address] ↔ Decodable codecs (reply address) := by
  obtain ⟨request, tup, c₁, htype, htuples, htup, hknown₁, hcall⟩ : ∃ request tup c₁,
      request.type = .get ∧ request.tuples = [tup] ∧ tup.key = key ∧ key ∈ c₁.addressCache ∧
      c.getAll codecs key [address] =
        ⟨[(address, request)], [request.requestId], getAllFinish codecs key c₁⟩ := by
    unfold getAll prepareDataRequest
    rw [charactersOf_eq_iff.mpr hkey]
    exact ⟨_, _, c.getRequestId.2, rfl, rfl, rfl, hknown, rfl⟩
  have htuples' : (respondTo reply (address, request)).tuples =
      [{ reply address with key := tup.key }] := by
    simp [respondTo, htuples]
  have hfinish : _ ↔ Decodable codecs _ := getAllFinish_iff htuples' htup hknown₁
  have hrecv : recvResponse [request.requestId] [respondTo reply (address, request)] =
      some [respondTo reply (address, request)] := by
    simp [recvResponse, respondTo]
  unfold GetAllCovers
  rw [hcall]
  constructor
  · rintro ⟨-, h⟩
    obtain ⟨responses, values, merged, hresponses, h⟩ := h _ (Perm.refl _)
    cases hrecv.symm.trans hresponses
    exact hfinish.mp ⟨values, merged, h⟩
  · intro hdecodable
    refine ⟨⟨rfl, fun message hmessage => ?_, rfl⟩, fun arrived harrived => ?_⟩
    · rw [mem_singleton.mp hmessage, htuples]
      exact ⟨htype, congrArg (fun k => [k]) htup⟩
    · obtain rfl := perm_singleton.mp harrived
      obtain ⟨values, merged, h⟩ := hfinish.mpr hdecodable
      exact ⟨_, values, merged, hrecv, h⟩

theorem not_putAllCovers : ¬ PutAllCovers c key addresses payload := by
  rintro ⟨call, hcall, -⟩
  cases hcall

/-- The client, once it knows the addresses of the key. -/
def withAddresses (c : PythonClient) (key : Key) (addresses : List Address) : PythonClient :=
  { c with addressCache := c.addressCache.insert key addresses }

end PythonClient

open PythonClient

/-- **All replicas are covered** by `get_all` just if the key is one character, there is one
replica, and the value that it has, if any, can be read; and never by `put_all`. -/
theorem replica_wide_calls_cover_iff (reply : Address → KeyTuple) (c : PythonClient) (key : Key)
    (first : Address) (rest : List Address) (payload : String) :
    (GetAllCovers codecs reply (c.withAddresses key (first :: rest)) key (first :: rest) ↔
      key.length = 1 ∧ rest = [] ∧ Decodable codecs (reply first)) ∧
    ¬ PutAllCovers (c.withAddresses key (first :: rest)) key (first :: rest) payload := by
  have hknown : key ∈ (c.withAddresses key (first :: rest)).addressCache :=
    ExtTreeMap.mem_insert.mpr (Or.inl Std.ReflCmp.compare_self)
  refine ⟨⟨fun h => ?_, ?_⟩, not_putAllCovers _ _⟩
  · obtain ⟨hkey, rfl⟩ := one_of_reaches h.1
    exact ⟨hkey, rfl, (getAll_covers_iff reply hkey first hknown).mp h⟩
  · rintro ⟨hkey, rfl, hdecodable⟩
    exact (getAll_covers_iff reply hkey first hknown).mpr hdecodable

/-- Neither call covers the two replicas of the key `"ab"`, whatever they reply. -/
theorem two_replicas_not_covered : ∃ (codecs : @ValueCodecs Int integerPriority) (c : PythonClient),
    c.addressCache["ab"]? = some ["x", "y"] ∧
      ∀ reply, ¬ GetAllCovers codecs reply c "ab" ["x", "y"] ∧
        ¬ PutAllCovers c "ab" ["x", "y"] "v" := by
  obtain ⟨codecs, -⟩ := exists_codecs
  let c : PythonClient := ⟨"i", "r", ∅, 0⟩
  refine ⟨codecs, c.withAddresses "ab" ["x", "y"], ExtTreeMap.getElem?_insert_self,
    fun reply => ⟨fun h => ?_, not_putAllCovers _ _⟩⟩
  exact absurd (one_of_reaches h.1).2 (cons_ne_nil _ _)

end Testbed.Anna
