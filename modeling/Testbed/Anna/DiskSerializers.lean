import Testbed.Anna.MemorySerializers

/-! # Serializers of the disk tier

The `Disk*Serializer` classes of `server_utils.hpp`.  A thread keeps one file for
each key, in one directory for all types.  Opening, reading, writing and deleting
files is taken to succeed, and a key is taken to be the name of its file.

The classes repeat the reading and writing of the file and differ in the message,
in which messages count as missing, and in what a PUT makes of the message that is
there.  The ordered sets have no message that counts as missing, and the priorities
create the file before they read it.
-/
namespace Testbed.Anna

open Std

/-- The directory of a thread: the contents of the files, by key. -/
abbrev Files := ExtTreeMap Key String

/-- The size that `tellp` reports after a message was written to an empty file. -/
def written (content : String) : Nat := content.utf8ByteSize

/-- What `input.tellp()` gives after a file was parsed.  Reading met the end of the
file, so the stream is in a failed state and the position is `-1`, as an `unsigned`. -/
def tellpAtEnd : Nat := 2 ^ 32 - 1

section
variable {M : Type} [Inhabited M] (codec : Codec M)

/-- `get`: no file, a file that does not parse and a message that counts as missing
are the same error. -/
def diskGet (missing : M → Bool) (files : Files) (key : Key) : String × AnnaError :=
  match files[key]? with
  | none => ("", .keyDne)
  | some content =>
    let (value, parsed) := codec.parseFromString content
    if ¬ parsed then ("", .keyDne)
    else if missing value then ("", .keyDne)
    else (codec.serializeAsString value, .noError)

/-- `put`: a new file holds the message that came in; otherwise `update` says what
replaces the message that is there, if anything does. -/
def diskPut (update : M → M → Option M) (files : Files) (key : Key) (serialized : String) :
    Nat × Files :=
  let inputValue := (codec.parseFromString serialized).1
  match files[key]? with
  | none =>
    let output := codec.serializeAsString inputValue
    (written output, files.insert key output)
  | some content =>
    let (originalValue, parsed) := codec.parseFromString content
    if ¬ parsed then (0, files)
    else
      match update originalValue inputValue with
      | some newValue =>
        let output := codec.serializeAsString newValue
        (written output, files.insert key output)
      | none => (tellpAtEnd, files)

/-- `DiskLWWSerializer` and its like. -/
def diskSerializer (missing : M → Bool) (update : M → M → Option M) : Serializer Files where
  get files key := (diskGet codec missing files key, files)
  put := diskPut codec update
  remove files key := files.erase key

end

section Classes
variable {D : Type} [Priority D] (codecs : ValueCodecs D)

/-- The message of a PUT replaces one that is not newer. -/
def updateLWW (originalValue inputValue : LWWValue) : Option LWWValue :=
  if inputValue.timestamp ≥ originalValue.timestamp then some inputValue else none

/-- The loops over the values of both messages. -/
def updateSet (originalValue inputValue : SetValue) : Option SetValue :=
  let setUnion : ExtTreeSet String := originalValue.values.foldl (fun acc val => acc.insert val) ∅
  let setUnion := inputValue.values.foldl (fun acc val => acc.insert val) setUnion
  some ⟨setUnion.toList⟩

/-- Both messages become lattices, which are merged. -/
def updateSingleKeyCausal (originalValue inputValue : SingleKeyCausalValue) :
    Option SingleKeyCausalValue :=
  let orig := toVectorClockValuePair originalValue
  let input := toVectorClockValuePair inputValue
  some (ofCausal (SingleKeyCausalLattice.doMerge orig input))

/-- Both messages become lattices, which are merged. -/
def updateMultiKeyCausal (originalValue inputValue : MultiKeyCausalValue) :
    Option MultiKeyCausalValue :=
  let orig := toMultiKeyCausalPayload originalValue
  let input := toMultiKeyCausalPayload inputValue
  some (ofMultiKeyCausal (MultiKeyCausalLattice.doMerge orig input))

def diskLWWSerializer : Serializer Files :=
  diskSerializer codecs.lww (fun value => value.value == "") updateLWW

def diskSetSerializer : Serializer Files :=
  diskSerializer codecs.set (fun value => value.values.length == 0) updateSet

/-- `DiskOrderedSetSerializer`: no message counts as missing. -/
def diskOrderedSetSerializer : Serializer Files :=
  diskSerializer codecs.set (fun _ => false) updateSet

def diskSingleKeyCausalSerializer : Serializer Files :=
  diskSerializer codecs.singleCausal (fun value => value.values.length == 0) updateSingleKeyCausal

def diskMultiKeyCausalSerializer : Serializer Files :=
  diskSerializer codecs.multiCausal (fun value => value.values.length == 0) updateMultiKeyCausal

/-- `DiskPrioritySerializer`: the file is opened with `O_CREAT`, so a key that was
never seen reads as an empty file. -/
def diskPrioritySerializer : Serializer Files where
  get files key := (diskGet codecs.priority (fun value => value.value == "") files key, files)
  put files key serialized :=
    let inputValue := (codecs.priority.parseFromString serialized).1
    let content := files.getD key ""
    let (originalValue, parsed) := codecs.priority.parseFromString content
    if ¬ parsed ∨ inputValue.priority < originalValue.priority then
      let output := codecs.priority.serializeAsString inputValue
      (written output, files.insert key output)
    else (written content, files.insert key content)
  remove files key := files.erase key

/-- The serializer that `serializers[type]` points to. -/
def diskEntry : LatticeType → Option (Serializer Files)
  | .none => none
  | .lww => some (diskLWWSerializer codecs)
  | .set => some (diskSetSerializer codecs)
  | .orderedSet => some (diskOrderedSetSerializer codecs)
  | .singleCausal => some (diskSingleKeyCausalSerializer codecs)
  | .multiCausal => some (diskMultiKeyCausalSerializer codecs)
  | .priority => some (diskPrioritySerializer codecs)

variable {codecs} in
theorem diskEntry_get {type : LatticeType} {serializer : Serializer Files}
    (h : diskEntry codecs type = some serializer) (files : Files) (key : Key) :
    (serializer.get files key).2 = files := by
  cases type <;> cases h <;> rfl

/-- The serializers that a thread of the disk tier sets up. -/
def diskSerializers : SerializerMap Files where
  entry := diskEntry codecs
  entry_eq_none {type} := by cases type <;> simp [diskEntry]
  get_readable {type type' ser ser'} h h' store key key' hread := by
    rw [diskEntry_get h']
    exact hread

/-- A thread of a disk node with one thread, where every replication factor is `1` by
default. -/
def diskServer (repCodec : Codec ReplicationFactor) (strHash : String → UInt64)
    (wt : ServerThread) : Server where
  selfTier := .disk
  threadNum := 1
  defaultReplication _ := 1
  defaultLocalReplication := 1
  strHash := strHash
  randR seed := (0, seed)
  lwwValue := codecs.lww
  replicationFactor := repCodec
  wt := wt
  selfJoinCount := 0
  Store := Files
  serializers := diskSerializers codecs

end Classes

end Testbed.Anna
