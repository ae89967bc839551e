import Testbed.Anna.MembershipHandlers

/-! # The client

`kvs_client.hpp`: a client sends its requests to worker threads, whose addresses it gets
from the routing tier and keeps in a cache.  A request for a key without a cached address
waits in `pending_request_map_` for the answer of the routing tier; one that has been sent
waits in `pending_get_response_map_` or `pending_put_response_map_` for the answer of the
worker.  `receive_async` takes at most one message of each kind, and then gives up on all
requests that have waited too long.

The clock is read in many places; a call gets the readings as an argument, by what they
are for (`Readings`), so that nothing is assumed about the clock.
-/
namespace Testbed.Anna

open Std Lib

structure UserThread where
  ip : Address
  tid : Nat
deriving DecidableEq

namespace UserThread

def responseConnectAddress (ut : UserThread) : Address :=
  "tcp://" ++ ut.ip ++ ":" ++ toString (ut.tid + 6800)

def keyAddressConnectAddress (ut : UserThread) : Address :=
  "tcp://" ++ ut.ip ++ ":" ++ toString (ut.tid + 6850)

end UserThread

structure UserRoutingThread where
  ip : Address
  tid : Nat
deriving DecidableEq

def UserRoutingThread.keyAddressConnectAddress (rt : UserRoutingThread) : Address :=
  "tcp://" ++ rt.ip ++ ":" ++ toString (rt.tid + 6450)

/-- What does not change in the life of a client, and what it uses of its libraries:
`rand_r`, and when `push_back` moves a vector of some length. -/
structure ClientConfig where
  routingThreads : List UserRoutingThread
  ut : UserThread
  /-- in milliseconds -/
  timeout : Nat
  randR : UInt32 → Nat × UInt32
  reallocates : Nat → Bool

/-- What a client sends. -/
inductive ClientMessage where
  | keyRequest (request : KeyRequest)
  | keyAddressRequest (request : KeyAddressRequest)
deriving DecidableEq

/-- `PendingRequest` of the client; the time point is in nanoseconds. -/
structure KvsClient.PendingRequest where
  tp : Int
  workerAddr : Address
  request : KeyRequest
deriving DecidableEq

/-- The readings of the clock in a call of `receive_async`. -/
structure Readings where
  /-- for a queue whose query is repeated -/
  address : Int
  /-- for the requests of a queue that are issued, by their position -/
  retry : Nat → Int
  /-- for a request whose worker was the wrong one -/
  response : Int
  /-- for the queue that it goes to -/
  reissue : Int
  /-- when the queue of a key is looked at -/
  queue : Key → Int
  /-- when a GET is looked at -/
  get : Key → Int
  /-- when a PUT is looked at -/
  put : Key → String → Int

/-- The fields of `KvsClient` that change; `sent` is what it has sent so far. -/
structure KvsClient (cfg : ClientConfig) where
  rid : UInt32
  seed : UInt32
  keyAddressCache : ExtTreeMap Key (ExtTreeSet Address)
  pendingRequestMap : ExtTreeMap Key (Int × List KeyRequest)
  pendingGetResponseMap : ExtTreeMap Key KvsClient.PendingRequest
  pendingPutResponseMap : ExtTreeMap Key (ExtTreeMap String KvsClient.PendingRequest)
  sent : List (Address × ClientMessage)

namespace KvsClient
variable {cfg : ClientConfig}

/-- `KvsClient::KvsClient`. -/
def initial (cfg : ClientConfig) (seed : UInt32) : KvsClient cfg where
  rid := 0
  seed := seed
  keyAddressCache := ∅
  pendingRequestMap := ∅
  pendingGetResponseMap := ∅
  pendingPutResponseMap := ∅
  sent := []

variable (s : KvsClient cfg)

def send (address : Address) (message : ClientMessage) : KvsClient cfg :=
  { s with sent := s.sent ++ [(address, message)] }

/-! ## Requests -/

def getRequestId : String × KvsClient cfg :=
  let rid := if (s.rid + 1) % 10000 = 0 then 0 else s.rid + 1
  (cfg.ut.ip ++ ":" ++ toString cfg.ut.tid ++ "_" ++ toString rid.toNat, { s with rid := rid + 1 })

def getRoutingThread : Except Fault (Address × KvsClient cfg) :=
  let (r, seed) := cfg.randR s.seed
  match cfg.routingThreads[r % cfg.routingThreads.length]? with
  -- only an empty list has no element there
  | none => .error .divisionByZero
  | some rt => .ok (rt.keyAddressConnectAddress, { s with seed })

variable (key : Key)

def queryRoutingAsync : Except Fault (KvsClient cfg) := do
  let (requestId, s) := s.getRequestId
  let request : KeyAddressRequest :=
    { requestId, responseAddress := cfg.ut.keyAddressConnectAddress, keys := [key] }
  let (rtThread, s) ← s.getRoutingThread
  return s.send rtThread (.keyAddressRequest request)

/-- `get_all_worker_threads`: without cached addresses the routing tier is asked, unless
there is a queue for the key. -/
def getAllWorkerThreads : Except Fault (ExtTreeSet Address × KvsClient cfg) :=
  let cached := s.keyAddressCache.getD key ∅
  if cached.isEmpty then
    if key ∈ s.pendingRequestMap then return (∅, s)
    else do return (∅, ← s.queryRoutingAsync key)
  else return (cached, s)

/-- `get_worker_thread`: a random one, or the empty address. -/
def getWorkerThread : Except Fault (Address × KvsClient cfg) := do
  let (localCache, s) ← s.getAllWorkerThreads key
  if localCache.size = 0 then return ("", s)
  else
    let (r, seed) := cfg.randR s.seed
    return (localCache.toList.getD (r % localCache.size) "", { s with seed })

variable (now : Int)

/-- The request joins the queue of its key. -/
def enqueue (key : Key) (request : KeyRequest) : KvsClient cfg :=
  let queue := s.pendingRequestMap.getD key (now, [])
  { s with pendingRequestMap := s.pendingRequestMap.insert key (queue.1, queue.2 ++ [request]) }

/-- The request waits for an answer of the worker.  One that waits already keeps its time
point and its text. -/
def await (key : Key) (worker : Address) (request : KeyRequest) : KvsClient cfg :=
  if request.type = .get then
    let entry := s.pendingGetResponseMap.getD key ⟨now, worker, request⟩
    { s with
      pendingGetResponseMap :=
        s.pendingGetResponseMap.insert key { entry with workerAddr := worker } }
  else
    let entries := s.pendingPutResponseMap.getD key ∅
    let entry := entries.getD request.requestId ⟨now, worker, request⟩
    { s with
      pendingPutResponseMap := s.pendingPutResponseMap.insert key
        (entries.insert request.requestId { entry with workerAddr := worker }) }

def tryRequest (request : KeyRequest) : Except Fault (KvsClient cfg) :=
  match request.tuples with
  | [] => .error .outOfRange
  | tuple :: tuples => do
    let (worker, s) ← s.getWorkerThread tuple.key
    if worker.length = 0 then
      return s.enqueue now tuple.key request
    else
      let addressCacheSize := (s.keyAddressCache.getD tuple.key ∅).size
      let request := { request with tuples := { tuple with addressCacheSize } :: tuples }
      return (s.send worker (.keyRequest request)).await now tuple.key worker request

def prepareDataRequest (tuple : KeyTuple) (type : RequestType) : KeyRequest × KvsClient cfg :=
  let (requestId, s) := s.getRequestId
  ({ type, requestId, responseAddress := cfg.ut.responseConnectAddress, tuples := [tuple] }, s)

def putAsync (key : Key) (payload : String)
    (latticeType : LatticeType) : Except Fault (String × KvsClient cfg) := do
  let (request, s) := s.prepareDataRequest { key, payload, latticeType } .put
  let s ← s.tryRequest now request
  return (request.requestId, s)

/-- `get_async`: nothing happens while a GET of the key waits for its answer. -/
def getAsync (key : Key) : Except Fault (KvsClient cfg) :=
  if key ∈ s.pendingGetResponseMap then return s
  else
    let (request, s) := s.prepareDataRequest { key } .get
    s.tryRequest now request

/-! ## `receive_async` -/

/-- `key_address_cache_[key].insert(ip)` for each address. -/
def populateCache (ips : List Address) : KvsClient cfg :=
  { s with keyAddressCache :=
             ips.foldl (fun m ip => m.insert key ((m.getD key ∅).insert ip)) s.keyAddressCache }

/-- The loop over the requests of a queue.  A request that joins the queue again may move
it, and then there is no next request to go on with. -/
def retryQueue (c : Readings) (key : Key) (s : KvsClient cfg) (i : Nat) :
    List KeyRequest → Except Fault (KvsClient cfg)
  | [] => .ok s
  | req :: reqs => do
    let length (s : KvsClient cfg) := (s.pendingRequestMap.getD key (0, [])).2.length
    let s' ← s.tryRequest (c.retry i) req
    if length s < length s' ∧ cfg.reallocates (length s) ∧ reqs ≠ [] then .error .outOfRange
    else s'.retryQueue c key (i + 1) reqs

/-- An answer of the routing tier. -/
def receiveAddresses (c : Readings) (response : KeyAddressResponse) :
    Except Fault (KvsClient cfg) :=
  match response.addresses with
  | [] => .error .outOfRange
  | address :: _ =>
    match s.pendingRequestMap[address.key]? with
    | none => return s
    | some queue =>
      if response.error = .noServers then
        { s with
          pendingRequestMap :=
            s.pendingRequestMap.insert address.key (c.address, queue.2) }.queryRoutingAsync
          address.key
      else do
        let s := s.populateCache address.key address.ips
        let s ← s.retryQueue c address.key 0 queue.2
        -- GC the pending request map
        return { s with pendingRequestMap := s.pendingRequestMap.erase address.key }

def invalidateCacheForKey : KvsClient cfg :=
  { s with keyAddressCache := s.keyAddressCache.erase key }

/-- `check_tuple`: whether to issue the request again. -/
def checkTuple (tuple : KeyTuple) : Bool × KvsClient cfg :=
  if tuple.error = .wrongThread then (true, s.invalidateCacheForKey tuple.key)
  else if tuple.invalidate then (false, s.invalidateCacheForKey tuple.key)
  else (false, s)

/-- An answer to a GET that waits. -/
def receiveGet (c : Readings) (response : KeyResponse) (tuple : KeyTuple)
    (entry : PendingRequest) : Except Fault (List KeyResponse × KvsClient cfg) :=
  match s.checkTuple tuple with
  | (true, s) => do
    -- error no == 2, so re-issue request
    let entry := { entry with tp := c.response }
    let s := { s with pendingGetResponseMap := s.pendingGetResponseMap.insert tuple.key entry }
    return ([], ← s.tryRequest c.reissue entry.request)
  | (false, s) =>
    -- error no == 0 or 1
    return ([response],
      { s with pendingGetResponseMap := s.pendingGetResponseMap.erase tuple.key })

/-- An answer to a PUT that waits. -/
def receivePut (c : Readings) (response : KeyResponse) (tuple : KeyTuple)
    (entries : ExtTreeMap String PendingRequest) (entry : PendingRequest) :
    Except Fault (List KeyResponse × KvsClient cfg) :=
  match s.checkTuple tuple with
  | (true, s) => do
    -- error no == 2, so re-issue request
    let entry := { entry with tp := c.response }
    let s :=
      { s with
        pendingPutResponseMap :=
          s.pendingPutResponseMap.insert tuple.key (entries.insert response.responseId entry) }
    return ([], ← s.tryRequest c.reissue entry.request)
  | (false, s) =>
    -- error no == 0
    let entries := entries.erase response.responseId
    return ([response],
      { s with
        pendingPutResponseMap :=
          if entries.size = 0 then s.pendingPutResponseMap.erase tuple.key
          else s.pendingPutResponseMap.insert tuple.key entries })

/-- An answer of a worker. -/
def receiveResponse (c : Readings) (response : KeyResponse) :
    Except Fault (List KeyResponse × KvsClient cfg) :=
  match response.tuples with
  | [] => .error .outOfRange
  | tuple :: _ =>
    if response.type = .get then
      match s.pendingGetResponseMap[tuple.key]? with
      | none => return ([], s)
      | some entry => s.receiveGet c response tuple entry
    else
      match s.pendingPutResponseMap[tuple.key]? with
      | none => return ([], s)
      | some entries =>
        match entries[response.responseId]? with
        | none => return ([], s)
        | some entry => s.receivePut c response tuple entries entry

def generateBadResponse (req : KeyRequest) : Except Fault KeyResponse :=
  match req.tuples with
  | [] => .error .outOfRange
  | tuple :: _ =>
    let tp : KeyTuple := { key := tuple.key }
    let tp := if req.type = .put then
      { tp with latticeType := tuple.latticeType, payload := tuple.payload } else tp
    return { type := req.type, responseId := req.requestId, error := .timeout, tuples := [tp] }

/-- `invalidate_cache_for_worker`: the keys that have an address on the same node. -/
def invalidateCacheForWorker (worker : Address) : Except Fault (KvsClient cfg) := do
  let signature ← part (split worker ':') 1
  let removed ← s.keyAddressCache.toList.filterM fun pair => do
    let signatures ← pair.2.toList.mapM fun address => part (split address ':') 1
    return signatures.contains signature
  return { s with keyAddressCache :=
                    removed.foldl (fun m pair => m.erase pair.1) s.keyAddressCache }

/-- The request has waited for more than `timeout_` milliseconds. -/
def expired (cfg : ClientConfig) (now tp : Int) : Bool := (now - tp).tdiv 1000000 > cfg.timeout

/-- GC the pending request map. -/
def sweepRequests (c : Readings) : Except Fault (List KeyResponse × KvsClient cfg) := do
  let late := s.pendingRequestMap.toList.filter fun pair =>
    expired cfg (c.queue pair.1) pair.2.1
  let result ← (late.flatMap fun pair => pair.2.2).mapM generateBadResponse
  return (result, { s with pendingRequestMap :=
                             late.foldl (fun m pair => m.erase pair.1) s.pendingRequestMap })

/-- GC the pending get response map. -/
def sweepGets (c : Readings) : Except Fault (List KeyResponse × KvsClient cfg) := do
  let late := s.pendingGetResponseMap.toList.filter fun pair =>
    expired cfg (c.get pair.1) pair.2.tp
  let result ← late.mapM fun pair => generateBadResponse pair.2.request
  let s ← late.foldlM (fun s pair => s.invalidateCacheForWorker pair.2.workerAddr) s
  return (result, { s with pendingGetResponseMap :=
                             late.foldl (fun m pair => m.erase pair.1) s.pendingGetResponseMap })

/-- The PUTs that have waited too long, with their keys and ids. -/
def latePuts (c : Readings) : List (Key × String × PendingRequest) :=
  s.pendingPutResponseMap.toList.flatMap fun pair =>
    (pair.2.toList.filter fun entry => expired cfg (c.put pair.1 entry.1) entry.2.tp).map
      fun entry => (pair.1, entry)

/-- GC the pending put response map. -/
def sweepPuts (c : Readings) : Except Fault (List KeyResponse × KvsClient cfg) := do
  let late := s.latePuts c
  let result ← late.mapM fun put => generateBadResponse put.2.2.request
  let s ← late.foldlM (fun s put => s.invalidateCacheForWorker put.2.2.workerAddr) s
  return (result,
    { s with
      pendingPutResponseMap := late.foldl
        (fun m put => m.insert put.1 ((m.getD put.1 ∅).erase put.2.1)) s.pendingPutResponseMap })

/-- What is in the socket for answers of the routing tier. -/
def pollAddresses (c : Readings) : Option KeyAddressResponse → Except Fault (KvsClient cfg)
  | none => .ok s
  | some response => s.receiveAddresses c response

/-- What is in the socket for answers of workers. -/
def pollResponse (c : Readings) :
    Option KeyResponse → Except Fault (List KeyResponse × KvsClient cfg)
  | none => .ok ([], s)
  | some response => s.receiveResponse c response

/-- `receive_async`, with what is in the two sockets. -/
def receiveAsync (c : Readings) (addresses : Option KeyAddressResponse)
    (response : Option KeyResponse) : Except Fault (List KeyResponse × KvsClient cfg) := do
  let s ← s.pollAddresses c addresses
  let (answers, s) ← s.pollResponse c response
  let (lateRequests, s) ← s.sweepRequests c
  let (lateGets, s) ← s.sweepGets c
  let (latePuts, s) ← s.sweepPuts c
  return (answers ++ lateRequests ++ lateGets ++ latePuts, s)

end KvsClient

end Testbed.Anna
