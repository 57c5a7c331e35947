/-
# Indexes and snapshots

The conversions between a protocol `Index` and the reconciler's `Snapshot`
and the check of an incoming chunk (`ferrisync-core/src/sync/orchestrator.rs`).

Key definitions: `indexToSnapshot`, `snapshotToIndex`, `validateChunk`.
Key theorems: `validateChunk_ok`, `FileHash.ofVec_bytes`.
-/
import FerriSync.Protocol

namespace FerriSync

/-- The first 32 bytes of a vector, filled up with zeros. -/
def FileHash.ofVec (h : Bytes) : FileHash where
  bytes := h.take 32 ++ List.replicate (32 - h.length) 0
  length_eq := by simp; omega

@[simp] theorem FileHash.ofVec_bytes (h : FileHash) : FileHash.ofVec h.bytes = h := by
  cases h with
  | mk b hb =>
    have ht : b.take 32 = b := List.take_of_length_le (by omega)
    simp [FileHash.ofVec, hb, ht]

/-- One entry of an index as the reconciler reads it. -/
def snapshotEntry (device : DeviceId) (e : IndexEntry) : SnapshotEntry where
  path := ⟨e.path⟩
  kind := .file
  size := e.size
  hash := FileHash.ofVec e.hash
  version := if e.localVersion > 0 then .single device e.localVersion else .new
  mtime := e.mtime

def indexToSnapshot (index : Index) (folderId : FolderId) : Snapshot where
  folderId := folderId
  generation := 0
  entries := index.entries.map (snapshotEntry ⟨index.deviceId⟩)

/-- One entry of a snapshot as the index carries it: of its counters, the
largest. -/
def indexEntry (e : SnapshotEntry) : IndexEntry where
  path := e.path.val
  localVersion := (e.version.versions.entries.map (·.2)).foldl max 0
  remoteVersion := 0
  mtime := e.mtime
  size := e.size
  hash := e.hash.bytes

def snapshotToIndex (snapshot : Snapshot) (folderIdStr deviceId : String) : Index where
  folderId := folderIdStr
  deviceId := deviceId
  remotePath := none
  entries := snapshot.entries.map indexEntry

/-- Check a chunk before it is buffered: `inFlight` files are incomplete and
`bufferedBytes` is the session's count of their bytes. -/
def validateChunk (chunk : FileChunk) (inFlight bufferedBytes : ℕ) : Except String Unit :=
  let len := chunk.data.length
  let pathLen := chunk.path.utf8ByteSize
  if maxPathLen < pathLen then
    .error s!"file path too long: {pathLen} bytes (max {maxPathLen})"
  else if maxFileSize < chunk.totalSize then
    .error s!"file too large: {chunk.totalSize} bytes (max {maxFileSize})"
  else if maxChunkFrame < len then
    .error s!"chunk too large: {len} bytes (max {maxChunkFrame})"
  else if UInt64.size ≤ chunk.offset + len then .error "chunk offset + size overflow"
  else if chunk.totalSize < chunk.offset + len then
    .error s!"chunk extends past total_size: offset={chunk.offset}, len={len}, total={chunk.totalSize}"
  else if 64 ≤ inFlight then
    .error s!"too many concurrent in-flight files: {inFlight} (max 64)"
  else if 256 * 1024 * 1024 < (bufferedBytes + len) % UInt64.size then
    .error s!"buffered bytes limit exceeded: {bufferedBytes} + {len} > 256 MiB"
  else .ok ()

theorem validateChunk_ok (chunk : FileChunk) (inFlight bufferedBytes : ℕ) :
    validateChunk chunk inFlight bufferedBytes = .ok () ↔
      chunk.path.utf8ByteSize ≤ maxPathLen ∧ chunk.totalSize ≤ maxFileSize ∧
      chunk.data.length ≤ maxChunkFrame ∧ chunk.offset + chunk.data.length < UInt64.size ∧
      chunk.offset + chunk.data.length ≤ chunk.totalSize ∧ inFlight < 64 ∧
      (bufferedBytes + chunk.data.length) % UInt64.size ≤ 256 * 1024 * 1024 := by
  unfold validateChunk
  dsimp only
  constructor
  · intro h
    split_ifs at h
    exact ⟨by omega, by omega, by omega, by omega, by omega, by omega, by omega⟩
  · rintro ⟨h1, h2, h3, h4, h5, h6, h7⟩
    rw [if_neg (by omega), if_neg (by omega), if_neg (by omega), if_neg (by omega),
      if_neg (by omega), if_neg (by omega), if_neg (by omega)]

end FerriSync
