import LightningDB.BufferPool.Pool
import Mathlib.Data.List.Basic

/-!
# The buffer manager

The operations of `BufferManager`, each as it acts under the locks it takes.  Where the source drops
a shard's lock and takes it again, in the retry loops around `evict_with_clock`, between the scan
and the cleanup of `reclaim_expired_versions` and around the read of a prefetch, the operation is
cut in two, and whatever other threads do may come between.

Files are written in three places: when a dirty victim is evicted, when a commit flushes its pages,
and when a checkpoint flushes a shard.
-/

namespace LightningDB

/-- `BufferManager`: the shards, the pin counts by frame id, and the next frame id. -/
structure BufferManager where
  shards : (j : Fin numShards) → BufferPool j
  pinCounts : ℕ → ℕ
  nextFrameId : ℕ

/-! ## Choosing a version -/

/-- The scan of `pin_page` and `create_new_version` over the frames of a page, newest slot first.
A frame with the caller's own mark ends it; otherwise the greatest committed version that `ok`
admits wins, the first one met if it is `0`. -/
def scanVersions (own : ℕ) (ok : ℕ → Bool) : Option Entry → List Entry → Option Entry
  | best, [] => best
  | best, e :: es =>
    if e.frame.version = own then some e
    else if e.committed && ok e.frame.version &&
        (decide (best.elim 0 (·.frame.version) < e.frame.version) ||
          (decide (e.frame.version = 0) && best.isNone)) then
      scanVersions own ok (some e) es
    else scanVersions own ok best es

/-- The scan of `pin_latest_committed`, oldest slot first: the last of the greatest versions. -/
def scanLatest : Option Entry → List Entry → Option Entry
  | best, [] => best
  | best, e :: es =>
    if e.committed && decide (best.elim 0 (·.frame.version) ≤ e.frame.version) then
      scanLatest (some e) es
    else scanLatest best es

namespace BufferPool

variable {j : Fin numShards} (p : BufferPool j)

/-- Give the slot of a frame its second chance back. -/
def touch (fid : ℕ) : BufferPool j :=
  p.mapSlots (fun _ sl => if sl.frame.id = fid then { sl with referenced := true } else sl)
    fun _ sl => by split <;> rfl

/-- Change the frames of a page. -/
def mapPage (k : PageKey) (g : Entry → Entry) : BufferPool j :=
  p.mapSlots
    (fun _ sl => if sl.key = some k then
      { sl with frame := (g sl.entry).frame, dirty := (g sl.entry).dirty } else sl)
    fun _ sl => by split <;> rfl

/-- Empty the slots that hold a frame that meets `drop`, without queueing them. -/
def dropFrames (drop : Entry → Bool) : BufferPool j :=
  p.dropSlots (fun i => (p.slots i).key.isSome && drop (p.slots i).entry) (fun _ => false) []
    nofun

/-- The slots of a page that hold a frame that meets `drop`. -/
def droppedOf (k : PageKey) (drop : Entry → Bool) : List ℕ :=
  (p.slotsOf k).filter fun i => drop (p.slots i).entry

/-- Empty the slots of a page that hold a frame that meets `drop`, queue them, and forget the page
when nothing of it is left. -/
def dropPage (k : PageKey) (drop : Entry → Bool) : BufferPool j :=
  p.dropSlots (fun i => decide ((p.slots i).key = some k) && drop (p.slots i).entry)
    (fun k' => k' = k) (p.droppedOf k drop)
    fun _ hi => p.occupied_lt _ k (mem_slotsOf.1 (List.mem_filter.1 hi).1)

/-- The greatest committed version in the shard of a page; `0` if there is none. -/
def maxCommitted (k : PageKey) : ℕ :=
  (List.range p.capacity).foldl
    (fun m i => if (p.slots i).key = some k ∧ (p.slots i).entry.committed then
      max m (p.slots i).frame.version else m) 0

/-- A slot `reclaim_expired_versions` may empty: it holds an unpinned committed version. -/
def reclaimable (pins : ℕ → ℕ) (i : ℕ) : Bool :=
  decide (pins (p.slots i).frame.id = 0) && decide ((p.slots i).frame.version ≠ 0) &&
    (p.slots i).entry.committed

/-- The scan of `reclaim_expired_versions` over one shard: the slots to clean up. -/
def reclaimCandidates (pins : ℕ → ℕ) (minActiveTs : ℕ) : List (ℕ × PageKey) :=
  (List.range p.capacity).filterMap fun i =>
    if p.reclaimable pins i && decide ((p.slots i).frame.version < minActiveTs) then
      match (p.slots i).key with
      | some k => if p.maxCommitted k ≤ (p.slots i).frame.version then none else some (i, k)
      | none => none
    else none

/-- The cleanup of `reclaim_expired_versions`: the slots are checked again, except for being
superseded. -/
def reclaimCleanup (pins : ℕ → ℕ) (candidates : List (ℕ × PageKey)) : BufferPool j :=
  let drop := fun i => p.reclaimable pins i &&
    candidates.any fun c => c.1 == i && (p.slots i).key == some c.2
  p.dropSlots drop (fun _ => false) ((List.range p.capacity).filter drop) fun _ hi =>
    List.mem_range.1 (List.mem_filter.1 hi).1

/-- Write the frames of the selected slots to the files of their pages. -/
def writeSlots (selected : ℕ → Bool) (d : Disk) : Disk :=
  (List.range p.capacity).foldl
    (fun d i => match (p.slots i).key with
      | some k => if selected i then d.writePage k (p.slots i).frame.data else d
      | none => d) d

def cleanSlots (selected : ℕ → Bool) : BufferPool j :=
  p.mapSlots (fun i sl => { sl with dirty := sl.dirty && !selected i }) fun _ _ => rfl

/-- The slot holds a dirty committed frame. -/
def dirtyCommitted (i : ℕ) : Bool :=
  (p.slots i).dirty && (p.slots i).entry.committed

/-- The page of the slot, if the shard has a handle of its file. -/
def writable (i : ℕ) : Bool :=
  (p.slots i).key.any fun k => decide (k.1 ∈ p.fileHandles)

/-- What the first loop of `flush_pages` has found: per page the slot of the newest dirty committed
frame, and the slots of the older ones. -/
structure FlushScan where
  newest : PageKey → Option ℕ
  superseded : ℕ → Bool

/-- The slot holds an older version than the one chosen. -/
def FlushScan.supersede (st : FlushScan) (i : ℕ) : FlushScan :=
  { st with superseded := fun i' => st.superseded i' || decide (i' = i) }

/-- The slot holds the newest version so far; the one chosen before is superseded. -/
def FlushScan.choose (st : FlushScan) (k : PageKey) (i : ℕ) : FlushScan where
  newest := fun k' => if k' = k then some i else st.newest k'
  superseded := fun i' => st.superseded i' || decide (st.newest k = some i')

variable (targets : List PageKey)

/-- One round of that loop. -/
def flushScanStep (st : FlushScan) (i : ℕ) : FlushScan :=
  match (p.slots i).key with
  | none => st
  | some k =>
    if p.dirtyCommitted i && targets.contains k then
      if (st.newest k).any fun b => (p.slots i).frame.version ≤ (p.slots b).frame.version then
        st.supersede i
      else st.choose k i
    else st

/-- The first loop of `flush_pages`. -/
def flushScan : FlushScan :=
  (List.range p.capacity).foldl (p.flushScanStep targets) ⟨fun _ => none, fun _ => false⟩

/-- The slots `flush_pages` writes. -/
def flushed (i : ℕ) : Bool :=
  p.writable i && (p.slots i).key.any fun k => (p.flushScan targets).newest k == some i

/-- `flush_pages` on one shard. -/
def flushPages (d : Disk) : BufferPool j × Disk :=
  (p.cleanSlots fun i => (p.flushScan targets).superseded i || p.flushed targets i,
   p.writeSlots (p.flushed targets) d)

/-- The flush of `checkpoint_inner` on one shard, with the files it wrote to. -/
def checkpointFlush (d : Disk) : BufferPool j × Disk × Finset ℕ :=
  let selected := fun i => p.dirtyCommitted i && p.writable i
  (p.cleanSlots selected, p.writeSlots selected d,
   ((List.range p.capacity).filterMap fun i =>
     if selected i then (p.slots i).key.map Prod.fst else none).toFinset)

end BufferPool

namespace BufferManager

/-- `BufferManager::new`. -/
def new (capacity : ℕ) : BufferManager where
  shards := fun j => .new j (capacity / numShards)
  pinCounts := fun _ => 0
  nextFrameId := 1

variable (bm : BufferManager) (k : PageKey)

def shardOf : BufferPool (getShardIdx k) :=
  bm.shards (getShardIdx k)

/-- The frames resident for a page. -/
def entries : List Entry := (bm.shardOf k).entries k

def knows : Prop := k.1 ∈ (bm.shardOf k).fileHandles

def setShard {j : Fin numShards} (p : BufferPool j) : BufferManager :=
  { bm with shards := Function.update bm.shards j p }

/-- `frame.pin_count.fetch_add(1)`. -/
def pin (fid : ℕ) : BufferManager :=
  { bm with pinCounts := Function.update bm.pinCounts fid (bm.pinCounts fid + 1) }

/-- `unpin_page` and `unpin_frame`. -/
def unpin (fid : ℕ) : BufferManager :=
  { bm with pinCounts := Function.update bm.pinCounts fid (bm.pinCounts fid - 1) }

/-- The result of looking for a slot. -/
inductive Placement where
  | placed (f : Frame) (bm : BufferManager) (d : Disk)
  | needRetry (bm : BufferManager)

/-- Evict and install a new frame for page `k`; its data may depend on the files as the eviction
left them.  The slot found is always in range (`evictWithClock_spec`). -/
def place (d : Disk) (k : PageKey) (version : ℕ) (dirty : Bool) (data : Disk → Image) : Placement :=
  let ev := (bm.shardOf k).evictWithClock bm.pinCounts d
  match ev.found with
  | some i =>
    if hi : i < ev.pool.capacity then
      let frame : Frame := ⟨bm.nextFrameId, data ev.disk, version⟩
      .placed frame
        { bm.setShard (ev.pool.install i hi k rfl ⟨frame, dirty⟩) with
          pinCounts := Function.update bm.pinCounts bm.nextFrameId 0
          nextFrameId := bm.nextFrameId + 1 } ev.disk
    else .needRetry (bm.setShard ev.pool)
  | none => .needRetry (bm.setShard ev.pool)

/-- The version of a page that a transaction finds resident: its own, or the greatest committed one
of its snapshot. -/
def findVisible (txId readTs : ℕ) : Option Frame :=
  (scanVersions (mark txId) (fun v => decide (v ≤ readTs)) none (bm.entries k).reverse).map
    Entry.frame

/-- The load of `pin_page` on a miss, once: find a slot and read the page from its file. -/
def loadPage (d : Disk) (k : PageKey) : Placement :=
  bm.place d k 0 false fun d => d.loadPage k

/-- `pin_page` up to its first attempt to find a slot.  The frame is pinned by the caller. -/
def pinPage (d : Disk) (k : PageKey) (txId readTs : ℕ) : Placement :=
  match bm.findVisible k txId readTs with
  | some f => .placed f bm d
  | none => bm.loadPage d k

/-- What `create_new_version` finds resident: the transaction's own version, or the newest committed
one as the source of the copy. -/
def findSource (txId : ℕ) : Option Frame :=
  (scanVersions (mark txId) (fun _ => true) none (bm.entries k).reverse).map Entry.frame

/-- `create_new_version` meets the transaction's own version: the slot is marked as used. -/
def touch (fid : ℕ) : BufferManager :=
  bm.setShard ((bm.shardOf k).touch fid)

/-- `file_handles.insert`. -/
def insertHandle : BufferManager :=
  bm.setShard { bm.shardOf k with fileHandles := insert k.1 (bm.shardOf k).fileHandles }

/-- The copy of `create_new_version`, once: find a slot and install the marked frame. -/
def installVersion (d : Disk) (k : PageKey) (txId : ℕ) (source : Image) : Placement :=
  bm.place d k (mark txId) true fun _ => source

/-- `pin_latest_committed`: the copy a merge starts from.  The pin is released as soon as the bytes
are copied. -/
def latestCommitted (d : Disk) (k : PageKey) : Image :=
  match scanLatest none (bm.entries k) with
  | some e => e.frame.data
  | none => d.loadPage k

/-- `pin_page_by_key`: the frame of a page with a given mark. -/
def findByMark (versionMark : ℕ) : Option Frame :=
  ((bm.entries k).reverse.find? fun e => e.frame.version = versionMark).map Entry.frame

/-- `evict_superseded_committed_versions`. -/
def evictSuperseded (keepVersion : ℕ) : BufferManager :=
  bm.setShard ((bm.shardOf k).dropPage k fun e =>
    e.committed && decide (e.frame.version < keepVersion) &&
      decide (bm.pinCounts e.frame.id = 0))

/-- A frame at its commit: the mark gives way to the timestamp. -/
def stampEntry (txId commitTs : ℕ) (e : Entry) : Entry :=
  if e.frame.version = mark txId then
    { e with frame := { e.frame with version := commitTs, data := ⟨e.frame.data.page, commitTs⟩ } }
  else e

/-- `update_timestamps`. -/
def updateTimestamps (txId commitTs : ℕ) : BufferManager :=
  bm.setShard ((bm.shardOf k).mapPage k (stampEntry txId commitTs))

/-- The bytes of a marked frame after its owner wrote to it. -/
def writeEntry (txId : ℕ) (page : Page) (e : Entry) : Entry :=
  if e.frame.version = mark txId then
    { e with frame := { e.frame with data := ⟨page, e.frame.data.origin⟩ } }
  else e

/-- A write through the frame that bears the transaction's mark. -/
def writeFrame (txId : ℕ) (page : Page) : BufferManager :=
  bm.setShard ((bm.shardOf k).mapPage k (writeEntry txId page))

/-- The id that `log_page_update` puts into the record: the greatest among the resident versions of
the page, marks taken off. -/
def logTxId : ℕ :=
  (bm.entries k).foldl (fun best e => if best < unmarked e.frame.version then
    unmarked e.frame.version else best) 0

/-- `rollback_versions`. -/
def rollbackVersions (txId : ℕ) : BufferManager :=
  { bm with shards := fun j => (bm.shards j).dropFrames fun e => e.frame.version = mark txId }

variable (j : Fin numShards)

/-- The scan of `reclaim_expired_versions` over one shard. -/
def reclaimCandidates (minActiveTs : ℕ) : List (ℕ × PageKey) :=
  (bm.shards j).reclaimCandidates bm.pinCounts minActiveTs

/-- The cleanup of `reclaim_expired_versions` on one shard. -/
def reclaimCleanup (candidates : List (ℕ × PageKey)) : BufferManager :=
  bm.setShard ((bm.shards j).reclaimCleanup bm.pinCounts candidates)

/-- `page_to_slots.contains_key`. -/
def isCached : Bool := ((bm.shardOf k).pageToSlots k).isSome

/-- `flush_pages` on one shard. -/
def flushPages (targets : List PageKey) (d : Disk) : BufferManager × Disk :=
  let r := (bm.shards j).flushPages targets d
  (bm.setShard r.1, r.2)

/-- The flush of `checkpoint_inner` on one shard, with the files it wrote to. -/
def checkpointFlush (d : Disk) : BufferManager × Disk × Finset ℕ :=
  let r := (bm.shards j).checkpointFlush d
  (bm.setShard r.1, r.2.1, r.2.2)

end BufferManager

end LightningDB
