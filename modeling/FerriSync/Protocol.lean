/-
# The protocol's messages

The messages two peers exchange (`ferrisync-core/src/protocol/mod.rs` and
`protocol_v2/`), the limits on them and how one is framed: its encoded
payload after the payload's length in four bytes, most significant first.
The encoder, `bincode::serialize`, is a parameter of what follows; what a
session relies on of it is `EncodedSizes`.

A `u64` that is a length or an offset is a natural number here; where the
code would overflow, the model says so.

Key definitions: `SyncMessage`, `EncodedSizes`, `frameMessage`, `frameTooLarge`.
-/
import FerriSync.Domain
import Mathlib.Algebra.GroupWithZero.Nat

namespace FerriSync

/-- Maximum size in bytes of a control or index frame's payload, 1 MiB. -/
def maxControlFrame : ℕ := 1024 * 1024

/-- Maximum size in bytes of a file chunk, 128 KiB. -/
def maxChunkFrame : ℕ := 128 * 1024

/-- Maximum file size, 10 GiB. -/
def maxFileSize : ℕ := 10 * 1024 * 1024 * 1024

/-- Maximum length in bytes of a file path. -/
def maxPathLen : ℕ := 1024

/-- Maximum number of paths in a `FileRequest`. -/
def maxFileRequestPaths : ℕ := 1000

/-- Maximum number of entries in an `Index`. -/
def maxIndexEntries : ℕ := 100000

structure HelloFolder where
  id : String
  name : String
  direction : String
deriving DecidableEq, Repr

structure Hello where
  protocolVersion : UInt32
  deviceId : String
  deviceName : String
  certFingerprint : Bytes
  folders : List HelloFolder
deriving DecidableEq, Repr

structure PairRequest where
  deviceId : String
  deviceName : String
  certFingerprint : Bytes
deriving DecidableEq, Repr

structure PairResponse where
  accepted : Bool
  deviceId : String
  deviceName : String
  certFingerprint : Bytes
  reason : Option String
deriving DecidableEq, Repr

/-- One file of an index. -/
structure IndexEntry where
  path : String
  localVersion : UInt64
  remoteVersion : UInt64
  mtime : Int64
  size : ℕ
  hash : Bytes
deriving DecidableEq

structure Index where
  folderId : String
  /-- The device that produced this index. -/
  deviceId : String
  /-- Where the peer keeps its copy of the folder, if not at its registered path. -/
  remotePath : Option String
  entries : List IndexEntry
deriving DecidableEq

structure FileRequest where
  folderId : String
  paths : List String
deriving DecidableEq, Repr

/-- A part of a file: `data` is what stands at `offset`. -/
structure FileChunk where
  folderId : String
  path : String
  offset : ℕ
  data : Bytes
  totalSize : ℕ
deriving DecidableEq, Repr

/-- The receipt of a file; with an empty path, the end of a push phase. -/
structure Ack where
  path : String
  success : Bool
  error : Option String
deriving DecidableEq, Repr

inductive ErrorCode
  | protocolVersionMismatch
  | authenticationFailed
  | fileNotFound
  | permissionDenied
  | internalError
deriving DecidableEq, Repr

structure ErrorMessage where
  code : ErrorCode
  message : String
deriving DecidableEq, Repr

structure SharedFolderInfo where
  folderGuid : String
  name : String
  mode : String
  localPath : String
deriving DecidableEq, Repr

structure RemoteFolderPair where
  folderGuid : String
  name : String
  mode : String
  remotePath : Option String
deriving DecidableEq, Repr

structure RemoteFolderPairRequest where
  deviceId : String
  deviceName : String
  folderGuid : String
  name : String
  mode : String
deriving DecidableEq, Repr

/-- A message between sync peers. -/
inductive SyncMessage
  | hello (h : Hello)
  | pairRequest (r : PairRequest)
  | pairResponse (r : PairResponse)
  | index (i : Index)
  | fileRequest (r : FileRequest)
  | fileChunk (c : FileChunk)
  | ack (a : Ack)
  | error (e : ErrorMessage)
  | listSharedFolders
  | sharedFolders (folders : List SharedFolderInfo)
  | requestFolderPair (r : RemoteFolderPairRequest)
  | folderPairPending
  | folderPairApproved (p : RemoteFolderPair)
  | folderPairRejected (reason : String)
deriving DecidableEq

/-- The Ack that ends a push phase. -/
def sentinel : SyncMessage := .ack ⟨"", true, none⟩

/-! ### The encoding

`bincode` 1 with its defaults, for the examples: integers little-endian at
their width, lengths in eight bytes, a variant's number in four. -/

namespace Bincode

def leBytes (width n : ℕ) : Bytes := (List.range width).map fun i => UInt8.ofNat (n >>> (8 * i))

def str (s : String) : Bytes := leBytes 8 s.utf8ByteSize ++ s.toByteArray.data.toList

def bytes (b : Bytes) : Bytes := leBytes 8 b.length ++ b

def bool (b : Bool) : Bytes := [if b then 1 else 0]

def option {α : Type} (enc : α → Bytes) : Option α → Bytes
  | none => [0]
  | some x => 1 :: enc x

def seq {α : Type} (enc : α → Bytes) (xs : List α) : Bytes := leBytes 8 xs.length ++ xs.flatMap enc

def indexEntry (e : IndexEntry) : Bytes :=
  str e.path ++ leBytes 8 e.localVersion.toNat ++ leBytes 8 e.remoteVersion.toNat ++
    leBytes 8 e.mtime.toUInt64.toNat ++ leBytes 8 e.size ++ bytes e.hash

def errorCode : ErrorCode → ℕ
  | .protocolVersionMismatch => 0
  | .authenticationFailed => 1
  | .fileNotFound => 2
  | .permissionDenied => 3
  | .internalError => 4

def serialize : SyncMessage → Bytes
  | .hello h => leBytes 4 0 ++ leBytes 4 h.protocolVersion.toNat ++ str h.deviceId ++
      str h.deviceName ++ bytes h.certFingerprint ++
      seq (fun f => str f.id ++ str f.name ++ str f.direction) h.folders
  | .pairRequest r => leBytes 4 1 ++ str r.deviceId ++ str r.deviceName ++ bytes r.certFingerprint
  | .pairResponse r => leBytes 4 2 ++ bool r.accepted ++ str r.deviceId ++ str r.deviceName ++
      bytes r.certFingerprint ++ option str r.reason
  | .index i => leBytes 4 3 ++ str i.folderId ++ str i.deviceId ++ option str i.remotePath ++
      seq indexEntry i.entries
  | .fileRequest r => leBytes 4 4 ++ str r.folderId ++ seq str r.paths
  | .fileChunk c => leBytes 4 5 ++ str c.folderId ++ str c.path ++ leBytes 8 c.offset ++
      bytes c.data ++ leBytes 8 c.totalSize
  | .ack a => leBytes 4 6 ++ str a.path ++ bool a.success ++ option str a.error
  | .error e => leBytes 4 7 ++ leBytes 4 (errorCode e.code) ++ str e.message
  | .listSharedFolders => leBytes 4 8
  | .sharedFolders fs => leBytes 4 9 ++
      seq (fun f => str f.folderGuid ++ str f.name ++ str f.mode ++ str f.localPath) fs
  | .requestFolderPair r => leBytes 4 10 ++ str r.deviceId ++ str r.deviceName ++
      str r.folderGuid ++ str r.name ++ str r.mode
  | .folderPairPending => leBytes 4 11
  | .folderPairApproved p => leBytes 4 12 ++ str p.folderGuid ++ str p.name ++ str p.mode ++
      option str p.remotePath
  | .folderPairRejected reason => leBytes 4 13 ++ str reason

theorem leBytes_length (width n : ℕ) : (leBytes width n).length = width := by
  rw [leBytes, List.length_map, List.length_range]

theorem str_length (s : String) : (str s).length = 8 + s.utf8ByteSize := by
  rw [str, List.length_append, leBytes_length]
  rfl

theorem seq_length {α : Type} (enc : α → Bytes) (xs : List α) :
    (seq enc xs).length = 8 + (xs.map fun x => (enc x).length).sum := by
  rw [seq, List.length_append, leBytes_length, List.length_flatMap]

theorem indexEntry_length (e : IndexEntry) :
    (indexEntry e).length = 48 + e.path.utf8ByteSize + e.hash.length := by
  simp only [indexEntry, bytes, List.length_append, leBytes_length, str_length]
  omega

/-- An index takes 29 bytes and its labels, and 48 bytes for an entry with its
path and its hash. -/
theorem index_length (i : Index) : (serialize (.index i)).length =
    29 + i.folderId.utf8ByteSize + i.deviceId.utf8ByteSize +
      (i.remotePath.map fun p => 8 + p.utf8ByteSize).getD 0 +
      (i.entries.map fun e => 48 + e.path.utf8ByteSize + e.hash.length).sum := by
  have hoption : (option str i.remotePath).length =
      1 + (i.remotePath.map fun p => 8 + p.utf8ByteSize).getD 0 := by
    cases i.remotePath with
    | none => rfl
    | some p =>
      simp only [option, List.length_cons, str_length, Option.map_some, Option.getD_some]
      omega
  simp only [serialize, List.length_append, leBytes_length, str_length, hoption, seq_length,
    indexEntry_length]
  omega

end Bincode

/-- What a session relies on of the encoding: how long a chunk and an Ack
become. -/
structure EncodedSizes (serialize : SyncMessage → Bytes) : Prop where
  chunk : ∀ c : FileChunk, (serialize (.fileChunk c)).length =
    44 + c.folderId.utf8ByteSize + c.path.utf8ByteSize + c.data.length
  ack : ∀ a : Ack, a.error = none → (serialize (.ack a)).length = 14 + a.path.utf8ByteSize

theorem Bincode.sizes : EncodedSizes Bincode.serialize where
  chunk c := by
    simp only [serialize, bytes, List.length_append, leBytes_length, str_length]
    omega
  ack a h := by
    simp only [serialize, bool, option, h, List.length_append, leBytes_length, str_length,
      List.length_cons, List.length_nil]
    omega

/-! ### Frames -/

/-- `u32::to_be_bytes`. -/
def beBytes (n : ℕ) : Bytes :=
  [UInt8.ofNat (n >>> 24), UInt8.ofNat (n >>> 16), UInt8.ofNat (n >>> 8), UInt8.ofNat n]

/-- A message's bytes on the wire: the length of its payload and the payload. -/
def frameMessage (serialize : SyncMessage → Bytes) (m : SyncMessage) : Bytes :=
  beBytes (serialize m).length ++ serialize m

/-- The payload is longer than the readers of a session accept. -/
def frameTooLarge (serialize : SyncMessage → Bytes) (m : SyncMessage) : Bool :=
  decide (maxControlFrame < (serialize m).length)

theorem frameMessage_length (serialize : SyncMessage → Bytes) (m : SyncMessage) :
    (frameMessage serialize m).length = 4 + (serialize m).length := by
  simp only [frameMessage, beBytes, List.length_append, List.length_cons, List.length_nil]

end FerriSync
