import LightningDB.Storage.Disk
import Mathlib.Data.Finset.Insert
import Mathlib.Data.List.Nodup
import Mathlib.Data.Nat.Bitwise

/-!
# One shard of the buffer pool

A shard keeps frames in slots.  Several slots may hold versions of one page, and `page_to_slots`
lists the slots of a page in the order in which they were filled.  That the two tables agree is part
of the type `BufferPool`, and so is that a page is only kept in the shard its hash selects; every
change of a shard goes through `mapSlots`, `dropSlots` or `install`, where this is proved once.

Frames are shared pointers in the source.  Here a frame has an id, given out when it is allocated,
and pin counts are kept by frame id next to the shards, so that a pin outlives the slot of its
frame.

What the rest of the development knows of a shard is `entries`: for each page the frames resident
for it, with their dirty flags.  The lemmas say what each operation does to it; the clock hand, the
second-chance bits and the queue of free slots appear in none of them.
-/

namespace LightningDB

open Function List

/-! ## Version marks -/

/-- `UNCOMMITTED_BIT`. -/
def uncommittedBit : ℕ := 2 ^ 63

/-- `tx_id | UNCOMMITTED_BIT`: the version of a frame that transaction `t` is writing. -/
def mark (t : ℕ) : ℕ := t ||| uncommittedBit

variable (v : ℕ)

/-- `version & UNCOMMITTED_BIT != 0`. -/
def isUncommitted : Bool := v &&& uncommittedBit ≠ 0

/-- `version & !UNCOMMITTED_BIT`. -/
def unmarked : ℕ := v &&& (uncommittedBit - 1)

lemma isUncommitted_eq_testBit : isUncommitted v = v.testBit 63 := by
  rw [isUncommitted, uncommittedBit, Nat.and_two_pow]
  cases v.testBit 63 <;> simp

@[simp] lemma isUncommitted_mark (t : ℕ) : isUncommitted (mark t) = true := by
  rw [isUncommitted_eq_testBit, mark, uncommittedBit, Nat.testBit_or, Nat.testBit_two_pow_self,
    Bool.or_true]

lemma isUncommitted_of_lt {v : ℕ} (h : v < uncommittedBit) : isUncommitted v = false := by
  rw [isUncommitted_eq_testBit, Nat.testBit_lt_two_pow h]

lemma unmarked_eq_mod : unmarked v = v % uncommittedBit := Nat.and_two_pow_sub_one_eq_mod v 63

lemma mark_eq_add {t : ℕ} (h : t < uncommittedBit) : mark t = t + uncommittedBit := by
  have hor := Nat.two_pow_add_eq_or_of_lt h 1
  rw [mul_one] at hor
  rw [mark, uncommittedBit, Nat.or_comm, ← hor, add_comm]

lemma unmarked_mark {t : ℕ} (h : t < uncommittedBit) : unmarked (mark t) = t := by
  rw [unmarked_eq_mod, mark_eq_add h, Nat.add_mod_right, Nat.mod_eq_of_lt h]

lemma mark_injOn {t t' : ℕ} (h : t < uncommittedBit) (h' : t' < uncommittedBit)
    (heq : mark t = mark t') : t = t' := by
  rw [← unmarked_mark h, heq, unmarked_mark h']

/-! ## Shards -/

/-- `num_shards`. -/
def numShards : ℕ := 16

/-- `get_shard_idx`.  Nothing depends on the value of the hash. -/
@[irreducible]
def getShardIdx (k : PageKey) : Fin numShards :=
  let h : UInt64 := UInt64.ofNat k.1 ^^^ UInt64.ofNat k.2
  let h := h ^^^ (h >>> 33)
  let h := h * 0xff51afd7ed558ccd
  let h := h ^^^ (h >>> 33)
  let h := h * 0xc4ceb9fe1a85ec53
  let h := h ^^^ (h >>> 33)
  ⟨h.toNat % numShards, Nat.mod_lt _ (by decide)⟩

/-- `Frame`: its pin count is kept apart, by its id. -/
structure Frame where
  id : ℕ
  data : Image
  version : ℕ
deriving DecidableEq

/-- The frame of an empty slot. -/
def Frame.blank : Frame := ⟨0, Image.zero, 0⟩

/-- `BufferSlot`. -/
structure BufferSlot where
  key : Option PageKey
  frame : Frame
  dirty : Bool
  referenced : Bool

open BufferSlot

def BufferSlot.blank : BufferSlot := ⟨none, .blank, false, false⟩

/-- A frame resident for a page. -/
structure Entry where
  frame : Frame
  dirty : Bool
deriving DecidableEq

def Entry.committed (e : Entry) : Bool := !isUncommitted e.frame.version

def BufferSlot.entry (sl : BufferSlot) : Entry := ⟨sl.frame, sl.dirty⟩

/-- `BufferPool`, the shard `j`.  `fileHandles` are the files the shard can write to. -/
structure BufferPool (j : Fin numShards) where
  pageToSlots : PageKey → Option (List ℕ)
  fileHandles : Finset ℕ
  slots : ℕ → BufferSlot
  clockPtr : ℕ
  capacity : ℕ
  maxCapacity : ℕ
  freeCandidates : List ℕ
  /-- The list of a page has exactly the slots that hold it. -/
  listed : ∀ k i, i ∈ (pageToSlots k).getD [] ↔ (slots i).key = some k
  nodup : ∀ k, ((pageToSlots k).getD []).Nodup
  /-- A page is kept in its own shard. -/
  homed : ∀ i k, (slots i).key = some k → getShardIdx k = j
  occupied_lt : ∀ i k, (slots i).key = some k → i < capacity
  capacity_pos : 0 < maxCapacity → 0 < capacity
  clockPtr_lt : 0 < capacity → clockPtr < capacity
  free_lt : ∀ i ∈ freeCandidates, i < capacity

/-- `INITIAL_SLOTS_PER_SHARD`. -/
def initialSlotsPerShard : ℕ := 256

namespace BufferPool

variable {j : Fin numShards}

def new (j : Fin numShards) (shardCapacity : ℕ) : BufferPool j where
  pageToSlots := fun _ => none
  fileHandles := ∅
  slots := fun _ => .blank
  clockPtr := 0
  capacity := min initialSlotsPerShard shardCapacity
  maxCapacity := shardCapacity
  freeCandidates := []
  listed := by simp [blank]
  nodup := by simp
  homed := by simp [blank]
  occupied_lt := by simp [blank]
  capacity_pos := fun h => lt_min (by decide) h
  clockPtr_lt := id
  free_lt := by simp

variable (p : BufferPool j)

def slotsOf (k : PageKey) : List ℕ := (p.pageToSlots k).getD []

/-- The frames resident for a page, in the order of its slots. -/
def entries (k : PageKey) : List Entry :=
  (p.slotsOf k).map fun i => (p.slots i).entry

variable {p} {k : PageKey} {i : ℕ}

lemma mem_slotsOf : i ∈ p.slotsOf k ↔ (p.slots i).key = some k := p.listed k i

lemma mem_entries {e : Entry} :
    e ∈ p.entries k ↔ ∃ i, (p.slots i).key = some k ∧ (p.slots i).entry = e := by
  simp only [entries, mem_map, mem_slotsOf]

/-! ## The three ways to change the slots -/

variable (p)

/-- Change what slots hold, but not for which page. -/
def mapSlots (f : ℕ → BufferSlot → BufferSlot)
    (hf : ∀ i sl, (f i sl).key = sl.key) : BufferPool j :=
  { p with
    slots := fun i => f i (p.slots i)
    listed := fun k i => by rw [hf, p.listed]
    homed := fun i k h => p.homed i k (hf i _ ▸ h)
    occupied_lt := fun i k h => p.occupied_lt i k (hf i _ ▸ h) }

lemma entries_mapSlots (f : ℕ → BufferSlot → BufferSlot)
    (hf : ∀ i sl, (f i sl).key = sl.key) (k : PageKey) :
    (p.mapSlots f hf).entries k = (p.slotsOf k).map fun i => (f i (p.slots i)).entry := rfl

/-- The list of a page without the dropped slots; `remove` says for which page an empty list is
taken out of the table. -/
def dropList (drop : ℕ → Bool) (remove : Bool) (l : Option (List ℕ)) : Option (List ℕ) :=
  match l with
  | none => none
  | some l =>
    let rest := l.filter fun i => !drop i
    if remove && rest.isEmpty then none else some rest

lemma dropList_getD (drop : ℕ → Bool) (remove : Bool) (l : Option (List ℕ)) :
    (dropList drop remove l).getD [] = (l.getD []).filter fun i => !drop i := by
  cases l with
  | none => rfl
  | some l =>
    simp only [dropList]
    split
    next h =>
      rw [Bool.and_eq_true, List.isEmpty_iff] at h
      exact h.2.symm
    · rfl

/-- Empty the slots that meet `drop`, and queue `freed`. -/
def dropSlots (drop : ℕ → Bool) (remove : PageKey → Bool) (freed : List ℕ)
    (hfreed : ∀ i ∈ freed, i < p.capacity) : BufferPool j :=
  { p with
    pageToSlots := fun k => dropList drop (remove k) (p.pageToSlots k)
    slots := fun i => if drop i then .blank else p.slots i
    freeCandidates := p.freeCandidates ++ freed
    listed := fun k i => by
      rw [dropList_getD, mem_filter, p.listed]
      cases drop i <;> simp [blank]
    nodup := fun k => by
      rw [dropList_getD]
      exact (p.nodup k).filter _
    homed := fun i k h => by
      cases hd : drop i
      · exact p.homed i k (by simpa [hd] using h)
      · simp [hd, blank] at h
    occupied_lt := fun i k h => by
      cases hd : drop i
      · exact p.occupied_lt i k (by simpa [hd] using h)
      · simp [hd, blank] at h
    free_lt := forall_mem_append.2 ⟨p.free_lt, hfreed⟩ }

variable {p}

lemma mem_entries_dropSlots {drop : ℕ → Bool} {remove : PageKey → Bool}
    {freed : List ℕ} {hfreed : ∀ i ∈ freed, i < p.capacity} {k : PageKey} {e : Entry} :
    e ∈ (p.dropSlots drop remove freed hfreed).entries k ↔
      ∃ i, (p.slots i).key = some k ∧ (p.slots i).entry = e ∧ drop i = false := by
  rw [mem_entries]
  refine exists_congr fun i => ?_
  cases h : drop i
  · simp [dropSlots, h]
  · simp [dropSlots, h, blank]

variable (p)

/-- The table after slot `i` was taken from the page it held. -/
def retain (i : ℕ) : PageKey → Option (List ℕ) :=
  match (p.slots i).key with
  | some oldKey =>
    update p.pageToSlots oldKey
      ((p.pageToSlots oldKey).map (List.filter fun i' => i' ≠ i))
  | none => p.pageToSlots

/-- The table after slot `i` was taken from the page it held and given to page `k`. -/
def relist (i : ℕ) (k : PageKey) : PageKey → Option (List ℕ) :=
  update (p.retain i) k (some ((p.retain i k).getD [] ++ [i]))

lemma retain_getD (i : ℕ) (k : PageKey) :
    (p.retain i k).getD [] = (p.slotsOf k).filter (fun i' => i' ≠ i) := by
  -- a list that does not have `i` is not changed by the filter
  have hfilter : (p.slots i).key ≠ some k →
      (p.slotsOf k).filter (fun i' => i' ≠ i) = p.slotsOf k := by
    intro hk
    rw [filter_eq_self]
    intro i' hi'
    rw [decide_eq_true_eq]
    rintro rfl
    exact hk (mem_slotsOf.1 hi')
  cases hkey : (p.slots i).key with
  | none =>
    rw [hfilter (by simp [hkey]), retain, hkey]
    rfl
  | some oldKey =>
    simp only [retain, hkey]
    by_cases hk : k = oldKey
    · subst hk
      rw [update_self, slotsOf]
      cases p.pageToSlots k <;> rfl
    · rw [update_of_ne hk, hfilter (by simpa [hkey] using Ne.symm hk)]
      rfl

/-- Slot `i` is in no list but the one it is appended to. -/
lemma relist_getD (i : ℕ) (k k' : PageKey) : (p.relist i k k').getD [] =
      (p.slotsOf k').filter (fun i' => i' ≠ i) ++ if k' = k then [i] else [] := by
  rw [relist]
  by_cases hk : k' = k
  · subst hk
    rw [update_self, if_pos rfl, Option.getD_some, retain_getD]
  · rw [update_of_ne hk, if_neg hk, append_nil, retain_getD]

/-- Put a frame into slot `i`: what it held is forgotten. -/
def install (i : ℕ) (hi : i < p.capacity) (k : PageKey)
    (hk : getShardIdx k = j) (e : Entry) : BufferPool j :=
  { p with
    pageToSlots := p.relist i k
    slots := update p.slots i ⟨some k, e.frame, e.dirty, true⟩
    listed := fun k' i' => by
      rw [relist_getD, mem_append, mem_filter, mem_slotsOf]
      by_cases h : i' = i
      · subst h
        by_cases hk' : k' = k
        · simp [hk']
        · simp [hk', Ne.symm hk']
      · simp [h]
    nodup := fun k' => by
      rw [relist_getD]
      refine List.Nodup.append ((p.nodup k').filter _) ?_ ?_
      · split <;> simp
      · intro i' hi' hi''
        split at hi''
        · simp only [mem_singleton] at hi''
          simp [hi''] at hi'
        · cases hi''
    homed := fun i' k' h => by
      by_cases h' : i' = i
      · subst h'
        simp only [update_self, Option.some.injEq] at h
        exact h ▸ hk
      · rw [update_of_ne h'] at h
        exact p.homed i' k' h
    occupied_lt := fun i' k' h => by
      by_cases h' : i' = i
      · exact h' ▸ hi
      · rw [update_of_ne h'] at h
        exact p.occupied_lt i' k' h }

variable {p}

lemma mem_entries_install {hi : i < p.capacity} {k' : PageKey} {hk : getShardIdx k = j}
    {e e' : Entry} : e' ∈ (p.install i hi k hk e).entries k' ↔
      (k' = k ∧ e' = e) ∨ ∃ i', i' ≠ i ∧ (p.slots i').key = some k' ∧ (p.slots i').entry = e' := by
  rw [mem_entries]
  constructor
  · rintro ⟨i', hkey, hentry⟩
    by_cases h : i' = i
    · subst h
      simp only [install, update_self, Option.some.injEq] at hkey hentry
      exact .inl ⟨hkey.symm, hentry.symm⟩
    · simp only [install, update_of_ne h] at hkey hentry
      exact .inr ⟨i', h, hkey, hentry⟩
  · rintro (⟨rfl, rfl⟩ | ⟨i', h, hkey, hentry⟩)
    · exact ⟨i, by simp [install], by simp [install, entry]⟩
    · exact ⟨i', by simpa [install, h] using hkey, by simpa [install, h] using hentry⟩

/-! ## Eviction -/

variable (p)

/-- Move the clock hand. -/
def advance : BufferPool j :=
  { p with
    clockPtr := (p.clockPtr + 1) % p.capacity
    clockPtr_lt := Nat.mod_lt _ }

/-- Take the second chance of slot `i`. -/
def clearReferenced (i : ℕ) : BufferPool j :=
  p.mapSlots (fun i' sl => if i' = i then { sl with referenced := false } else sl)
    fun i' sl => by split <;> rfl

/-- The inner loop of `evict_with_clock`: at most `n` steps of the clock hand. -/
def sweep (pins : ℕ → ℕ) : ℕ → BufferPool j → Option ℕ × BufferPool j
  | 0, p => (none, p)
  | n + 1, p =>
    let idx := p.clockPtr
    let slot := p.slots idx
    if pins slot.frame.id ≠ 0 then sweep pins n p.advance
    else if slot.referenced then sweep pins n (p.advance.clearReferenced idx)
    else if slot.dirty && isUncommitted slot.frame.version then sweep pins n p.advance
    else (some idx, p.advance)

/-- `grow_pool`. -/
def growPool : BufferPool j :=
  if h : p.capacity < min (p.capacity * 2) p.maxCapacity then
    { p with
      slots := fun i =>
        if p.capacity ≤ i ∧ i < min (p.capacity * 2) p.maxCapacity then .blank else p.slots i
      capacity := min (p.capacity * 2) p.maxCapacity
      freeCandidates := p.freeCandidates ++
        List.range' p.capacity (min (p.capacity * 2) p.maxCapacity - p.capacity)
      listed := fun k i => by
        rw [p.listed]
        split
        next hi =>
          constructor
          · intro hkey
            exact absurd (p.occupied_lt i k hkey) (not_lt.2 hi.1)
          · intro hkey
            cases hkey
        · rfl
      homed := fun i k hkey => by
        split at hkey
        · cases hkey
        · exact p.homed i k hkey
      occupied_lt := fun i k hkey => by
        split at hkey
        · cases hkey
        · exact (p.occupied_lt i k hkey).trans h
      capacity_pos := fun hmax => (p.capacity_pos hmax).trans h
      clockPtr_lt := fun _ => (p.clockPtr_lt (by omega)).trans h
      free_lt := fun i hi => by
        rcases mem_append.1 hi with hi | hi
        · exact (p.free_lt i hi).trans h
        · rw [mem_range'_1] at hi
          omega }
  else p

/-- The outer loop of `evict_with_clock`: sweep, grow and sweep again. -/
def clockSweeps (pins : ℕ → ℕ) : ℕ → BufferPool j → Option ℕ × BufferPool j
  | 0, p => (none, p)
  | fuel + 1, p =>
    match sweep pins p.capacity p with
    | (some idx, p) => (some idx, p)
    | (none, p) =>
      if p.capacity < p.maxCapacity then clockSweeps pins fuel p.growPool else (none, p)

/-- The write of a dirty victim, to a file the shard knows. -/
def writeBack (d : Disk) (i : ℕ) : Disk :=
  match (p.slots i).key with
  | some k =>
    if (p.slots i).dirty && decide (k.1 ∈ p.fileHandles) then d.writePage k (p.slots i).frame.data
    else d
  | none => d

/-- What `evict_with_clock` leaves: the slot found (`Found`), or none (`NeedRetry`). -/
structure Evicted (j : Fin numShards) where
  found : Option ℕ
  pool : BufferPool j
  disk : Disk

/-- `evict_with_clock` past the queue of free slots. -/
def evictByClock (pins : ℕ → ℕ) (d : Disk) : Evicted j :=
  match clockSweeps pins (p.maxCapacity + 1) p with
  | (some idx, p) => ⟨some idx, p, p.writeBack d idx⟩
  | (none, p) => ⟨none, p, d⟩

/-- `evict_with_clock`. -/
def evictWithClock (pins : ℕ → ℕ) (d : Disk) : Evicted j :=
  match hfree : p.freeCandidates with
  | [] => p.evictByClock pins d
  | idx :: rest =>
    if (p.slots idx).key = none ∧ pins (p.slots idx).frame.id = 0 ∧ (p.slots idx).dirty = false then
      ⟨some idx, { p with
        freeCandidates := rest
        free_lt := fun i hi => p.free_lt i (hfree ▸ mem_cons_of_mem _ hi) }, d⟩
    else
      evictByClock { p with
        freeCandidates := rest ++ [idx]
        free_lt := fun i hi => p.free_lt i (by
          rw [hfree]
          exact mem_cons.2 ((mem_append.1 hi).symm.imp mem_singleton.1 id)) } pins d

/-- Nothing resident has changed. -/
structure SameResidents (p q : BufferPool j) : Prop where
  pageToSlots : q.pageToSlots = p.pageToSlots
  fileHandles : q.fileHandles = p.fileHandles
  capacity : p.capacity ≤ q.capacity
  key : ∀ i, (q.slots i).key = (p.slots i).key
  entry : ∀ i < p.capacity, (q.slots i).entry = (p.slots i).entry

namespace SameResidents

lemma refl : SameResidents p p := ⟨rfl, rfl, le_rfl, fun _ => rfl, fun _ _ => rfl⟩

lemma trans {p q r : BufferPool j} (h : SameResidents p q) (h' : SameResidents q r) :
    SameResidents p r where
  pageToSlots := h'.pageToSlots.trans h.pageToSlots
  fileHandles := h'.fileHandles.trans h.fileHandles
  capacity := h.capacity.trans h'.capacity
  key i := (h'.key i).trans (h.key i)
  entry i hi := (h'.entry i (hi.trans_le h.capacity)).trans (h.entry i hi)

lemma entries {p q : BufferPool j} (h : SameResidents p q) (k : PageKey) :
    q.entries k = p.entries k := by
  have hslots : q.slotsOf k = p.slotsOf k := by rw [slotsOf, slotsOf, h.pageToSlots]
  rw [BufferPool.entries, hslots]
  exact map_congr_left fun i hi => h.entry i (p.occupied_lt i k (mem_slotsOf.1 hi))

end SameResidents

lemma sameResidents_clearReferenced (i : ℕ) : SameResidents p (p.clearReferenced i) where
  pageToSlots := rfl
  fileHandles := rfl
  capacity := le_rfl
  key i' := by
    rw [clearReferenced, mapSlots]
    dsimp only
    split <;> rfl
  entry i' _ := by
    rw [clearReferenced, mapSlots]
    dsimp only
    split <;> rfl

lemma sameResidents_advance : SameResidents p p.advance :=
  ⟨rfl, rfl, le_rfl, fun _ => rfl, fun _ _ => rfl⟩

lemma sameResidents_growPool : SameResidents p p.growPool := by
  rw [growPool]
  split
  next hgrow =>
    refine ⟨rfl, rfl, hgrow.le, fun i => ?_, fun i hi => ?_⟩
    · dsimp only
      split
      next hcap =>
        cases hkey : (p.slots i).key with
        | none => rfl
        | some k => exact absurd (p.occupied_lt i k hkey) (not_lt.2 hcap.1)
      · rfl
    · dsimp only
      rw [if_neg fun hcap => not_lt.2 hcap.1 hi]
  · exact .refl p

/-- The slot may be given to another page: it is not pinned, and what it holds is not the only copy
of an uncommitted version. -/
structure Evictable (pins : ℕ → ℕ) (i : ℕ) : Prop where
  lt : i < p.capacity
  unpinned : pins (p.slots i).frame.id = 0
  committed : (p.slots i).dirty = true → isUncommitted (p.slots i).frame.version = false

variable (pins : ℕ → ℕ)

lemma sweep_spec (n : ℕ) (p : BufferPool j) (hn : 0 < n → 0 < p.capacity) :
    SameResidents p (sweep pins n p).2 ∧ (sweep pins n p).2.capacity = p.capacity ∧
      (sweep pins n p).2.maxCapacity = p.maxCapacity ∧
      ∀ i ∈ (sweep pins n p).1, (sweep pins n p).2.Evictable pins i := by
  fun_induction sweep pins n p with
  | case1 p => exact ⟨.refl p, rfl, rfl, nofun⟩
  | case2 n p idx slot hpin ih | case4 n p idx slot hpin href hdirty ih =>
    obtain ⟨hsame, hrest⟩ := ih fun _ => hn n.succ_pos
    exact ⟨p.sameResidents_advance.trans hsame, hrest⟩
  | case3 n p idx slot hpin href ih =>
    obtain ⟨hsame, hrest⟩ := ih fun _ => hn n.succ_pos
    exact ⟨(p.sameResidents_advance.trans (sameResidents_clearReferenced _ _)).trans hsame, hrest⟩
  | case5 n p idx slot hpin href hdirty =>
    refine ⟨p.sameResidents_advance, rfl, rfl, ?_⟩
    rintro _ ⟨⟩
    refine ⟨p.clockPtr_lt (hn n.succ_pos), not_not.1 hpin, fun hd => ?_⟩
    have hd : slot.dirty = true := hd
    rw [hd, Bool.not_eq_true] at hdirty
    exact hdirty

lemma clockSweeps_spec (fuel : ℕ) (p : BufferPool j) : SameResidents p (clockSweeps pins fuel p).2 ∧
      ∀ i ∈ (clockSweeps pins fuel p).1, (clockSweeps pins fuel p).2.Evictable pins i := by
  fun_induction clockSweeps pins fuel p with
  | case1 p => exact ⟨.refl p, nofun⟩
  | case2 fuel p idx q hq | case4 fuel p q hq _ =>
    obtain ⟨hsame, -, -, hfound⟩ := hq ▸ sweep_spec pins p.capacity p id
    exact ⟨hsame, hfound⟩
  | case3 fuel p q hq _ ih =>
    obtain ⟨hsame, -⟩ := hq ▸ sweep_spec pins p.capacity p id
    exact ⟨(hsame.trans q.sameResidents_growPool).trans ih.1, ih.2⟩

/-! ## When the clock finds nothing -/

/-- The slot is not up for eviction: it is pinned, or holds the only copy of an uncommitted version. -/
def Held (pins : ℕ → ℕ) (sl : BufferSlot) : Prop :=
  pins sl.frame.id ≠ 0 ∨ sl.dirty = true ∧ isUncommitted sl.frame.version = true

lemma held_congr {sl sl' : BufferSlot} (h : sl.entry = sl'.entry) : Held pins sl ↔ Held pins sl' := by
  obtain ⟨hframe, hdirty⟩ : sl.frame = sl'.frame ∧ sl.dirty = sl'.dirty := by simpa [entry] using h
  rw [Held, Held, hframe, hdirty]

lemma clearReferenced_slot (p : BufferPool j) (i i' : ℕ) :
    ((p.clearReferenced i).slots i').entry = (p.slots i').entry ∧
      (((p.clearReferenced i).slots i').referenced = true → (p.slots i').referenced = true ∧ i' ≠ i) := by
  rw [clearReferenced, mapSlots]
  dsimp only
  split
  · exact ⟨rfl, nofun⟩
  next hne => exact ⟨rfl, fun h => ⟨h, hne⟩⟩

/-- A sweep changes nothing of a slot but its second chance, and gives none. -/
lemma sweep_slot (n : ℕ) (p : BufferPool j) (i : ℕ) :
    ((sweep pins n p).2.slots i).entry = (p.slots i).entry ∧
      (((sweep pins n p).2.slots i).referenced = true → (p.slots i).referenced = true) := by
  fun_induction sweep pins n p with
  | case1 p => exact ⟨rfl, id⟩
  | case2 n p idx slot hpin ih | case4 n p idx slot hpin href hdirty ih => exact ih
  | case3 n p idx slot hpin href ih =>
    obtain ⟨hentry, hclear⟩ := clearReferenced_slot p.advance p.clockPtr i
    exact ⟨ih.1.trans hentry, fun h => (hclear (ih.2 h)).1⟩
  | case5 n p idx slot hpin href hdirty => exact ⟨rfl, id⟩

/-- The slots that a sweep has passed without taking one: they are held, or have lost their second
chance. -/
lemma sweep_none (n : ℕ) (p : BufferPool j) (hcap : 0 < p.capacity) (hnone : (sweep pins n p).1 = none) :
    ∀ m < n, Held pins (p.slots ((p.clockPtr + m) % p.capacity)) ∨
      (p.slots ((p.clockPtr + m) % p.capacity)).referenced = true ∧
        ((sweep pins n p).2.slots ((p.clockPtr + m) % p.capacity)).referenced = false := by
  have hadvance : ∀ p : BufferPool j, ∀ m, (p.advance.clockPtr + m) % p.advance.capacity =
      (p.clockPtr + (m + 1)) % p.capacity := by
    intro p m
    change ((p.clockPtr + 1) % p.capacity + m) % p.capacity = _
    rw [Nat.mod_add_mod, add_assoc, add_comm 1 m]
  have hhere : ∀ p : BufferPool j, 0 < p.capacity → (p.clockPtr + 0) % p.capacity = p.clockPtr :=
    fun p hcap => Nat.mod_eq_of_lt (p.clockPtr_lt hcap)
  fun_induction sweep pins n p with
  | case1 p => exact fun m hm => absurd hm (Nat.not_lt_zero m)
  | case2 n p idx slot hpin ih =>
    rintro (_ | m) hm
    · rw [hhere p hcap]
      exact .inl (.inl hpin)
    · exact hadvance p m ▸ ih hcap hnone m (Nat.lt_of_succ_lt_succ hm)
  | case3 n p idx slot hpin href ih =>
    rintro (_ | m) hm
    · -- the second chance that is taken is not given back
      rw [hhere p hcap]
      refine .inr ⟨href, Bool.eq_false_of_not_eq_true fun h => ?_⟩
      exact ((clearReferenced_slot _ _ _).2 ((sweep_slot pins n _ _).2 h)).2 rfl
    · obtain ⟨hentry, hclear⟩ :=
        clearReferenced_slot p.advance idx ((p.advance.clockPtr + m) % p.advance.capacity)
      have hrest := ih hcap hnone m (Nat.lt_of_succ_lt_succ hm)
      rw [← hadvance p m]
      exact hrest.imp (held_congr pins hentry).1 fun h => ⟨(hclear h.1).1, h.2⟩
  | case4 n p idx slot hpin href hdirty ih =>
    rintro (_ | m) hm
    · rw [hhere p hcap]
      exact .inl (.inr (Bool.and_eq_true_iff.1 hdirty))
    · exact hadvance p m ▸ ih hcap hnone m (Nat.lt_of_succ_lt_succ hm)
  | case5 n p idx slot hpin href hdirty => cases hnone

lemma sweep_none_all {p : BufferPool j} (hnone : (sweep pins p.capacity p).1 = none) (hi : i < p.capacity) :
    Held pins (p.slots i) ∨ (p.slots i).referenced = true ∧
      ((sweep pins p.capacity p).2.slots i).referenced = false := by
  have hcap : 0 < p.capacity := Nat.zero_lt_of_lt hi
  have hclock := p.clockPtr_lt hcap
  have hpass : (p.clockPtr + (i + p.capacity - p.clockPtr) % p.capacity) % p.capacity = i := by
    rw [Nat.add_mod_mod, show p.clockPtr + (i + p.capacity - p.clockPtr) = i + p.capacity by omega,
      Nat.add_mod_right, Nat.mod_eq_of_lt hi]
  have h := sweep_none pins _ p hcap hnone _ (Nat.mod_lt (i + p.capacity - p.clockPtr) hcap)
  rwa [hpass] at h

lemma held_of_sweep_none {p : BufferPool j} (hnone : (sweep pins p.capacity p).1 = none)
    (hi : i < p.capacity) (hchance : Held pins (p.slots i) ∨ (p.slots i).referenced = false) :
    Held pins (p.slots i) := by
  rcases hchance with hheld | hchance
  · exact hheld
  · refine (sweep_none_all pins hnone hi).resolve_right fun h => ?_
    exact absurd (hchance.symm.trans h.1) Bool.false_ne_true

lemma sweep_eq_none {n : ℕ} {p : BufferPool j} (h : (clockSweeps pins (n + 1) p).1 = none) :
    (sweep pins p.capacity p).1 = none := by
  rw [clockSweeps] at h
  split at h
  · cases h
  next hnone => rw [hnone]

/-- The loop stops without a slot only when the shard cannot grow any more: each round but the last
grows it, so that the fuel suffices. -/
lemma clockSweeps_none {n : ℕ} {p : BufferPool j} (hfuel : p.maxCapacity - p.capacity < n)
    (hnone : (clockSweeps pins n p).1 = none) :
    (clockSweeps pins n p).2.maxCapacity = p.maxCapacity ∧
      p.maxCapacity ≤ (clockSweeps pins n p).2.capacity ∧
      ∀ i < (clockSweeps pins n p).2.capacity, Held pins ((clockSweeps pins n p).2.slots i) ∨
        ((clockSweeps pins n p).2.slots i).referenced = false := by
  fun_induction clockSweeps pins n p with
  | case1 p => exact absurd hfuel (Nat.not_lt_zero _)
  | case2 fuel p idx q hq => cases hnone
  | case3 fuel p q hq hgrow ih =>
    obtain ⟨-, hcap, hmax, -⟩ := hq ▸ sweep_spec pins p.capacity p id
    dsimp only at hcap hmax
    have hpos := q.capacity_pos (by omega)
    have hgrown : q.growPool.capacity = min (q.capacity * 2) q.maxCapacity ∧
        q.growPool.maxCapacity = q.maxCapacity := by
      rw [growPool, dif_pos (by omega)]
      exact ⟨rfl, rfl⟩
    have hrest := ih (by omega) hnone
    rwa [hgrown.2, hmax] at hrest
  | case4 fuel p q hq hfull =>
    obtain ⟨-, hcap, hmax, -⟩ := hq ▸ sweep_spec pins p.capacity p id
    dsimp only at hcap hmax
    refine ⟨hmax, by dsimp only; omega, fun i hi => ?_⟩
    have hslot := hq ▸ sweep_slot pins p.capacity p i
    have hpassed := hq ▸ sweep_none_all pins (p := p) (i := i) (by rw [hq]) (hcap ▸ hi)
    exact hpassed.imp (held_congr pins hslot.1).2 And.right

/-- **The clock comes to rest.**  The loop of `evict_with_clock` changes nothing resident, and the slot
it finds may be given away.  If it finds none, the shard has grown as far as it can; and if it finds
none a second time, every slot is pinned or holds the only copy of an uncommitted version. -/
theorem clock_comes_to_rest (p : BufferPool j) :
    SameResidents p (clockSweeps pins (p.maxCapacity + 1) p).2 ∧
      (∀ i ∈ (clockSweeps pins (p.maxCapacity + 1) p).1,
        (clockSweeps pins (p.maxCapacity + 1) p).2.Evictable pins i) ∧
      ∀ q, clockSweeps pins (p.maxCapacity + 1) p = (none, q) →
        p.maxCapacity ≤ q.capacity ∧
          ∀ n, (clockSweeps pins (n + 1) q).1 = none → ∀ i < q.capacity, Held pins (q.slots i) := by
  obtain ⟨hsame, hfound⟩ := clockSweeps_spec pins (p.maxCapacity + 1) p
  refine ⟨hsame, hfound, fun q hq => ?_⟩
  have hrest := clockSweeps_none pins (p := p) (n := p.maxCapacity + 1) (by omega) (by rw [hq])
  rw [hq] at hrest
  exact ⟨hrest.2.1, fun n hnone i hi =>
    held_of_sweep_none pins (sweep_eq_none pins hnone) hi (hrest.2.2 i hi)⟩

lemma writeBack_of_clean {p : BufferPool j} (h : (p.slots i).dirty = false) (d : Disk) :
    p.writeBack d i = d := by
  rw [writeBack]
  split
  · rw [h, Bool.false_and, if_neg (by decide)]
  · rfl

/-- **Eviction.**  Nothing resident changes; a slot that is found may be given away, and was
written back if it was dirty; otherwise no file is written. -/
lemma evictWithClock_spec (pins : ℕ → ℕ) (d : Disk) :
    SameResidents p (p.evictWithClock pins d).pool ∧
      ((p.evictWithClock pins d).found = none → (p.evictWithClock pins d).disk = d) ∧
      ∀ i ∈ (p.evictWithClock pins d).found,
        (p.evictWithClock pins d).pool.Evictable pins i ∧
        (p.evictWithClock pins d).disk = (p.evictWithClock pins d).pool.writeBack d i := by
  have hclock : ∀ q : BufferPool j, SameResidents p q →
      SameResidents p (q.evictByClock pins d).pool ∧
        ((q.evictByClock pins d).found = none → (q.evictByClock pins d).disk = d) ∧
        ∀ i ∈ (q.evictByClock pins d).found, (q.evictByClock pins d).pool.Evictable pins i ∧
          (q.evictByClock pins d).disk = (q.evictByClock pins d).pool.writeBack d i := by
    intro q hq
    obtain ⟨hsame, hfound⟩ := clockSweeps_spec pins (q.maxCapacity + 1) q
    rw [evictByClock]
    split
    next hr =>
      rw [hr] at hsame hfound
      refine ⟨hq.trans hsame, nofun, fun i hi => ⟨hfound i hi, ?_⟩⟩
      cases hi
      rfl
    next hr =>
      rw [hr] at hsame
      exact ⟨hq.trans hsame, fun _ => rfl, nofun⟩
  rw [evictWithClock]
  split
  · exact hclock p (.refl p)
  next hfree =>
    split
    next hfit =>
      refine ⟨⟨rfl, rfl, le_rfl, fun _ => rfl, fun _ _ => rfl⟩, nofun, fun i hi => ?_⟩
      cases hi
      refine ⟨⟨p.free_lt _ (hfree ▸ mem_cons_self), hfit.2.1, fun hd => ?_⟩, ?_⟩
      · exact absurd (hfit.2.2.symm.trans hd) Bool.false_ne_true
      · exact (writeBack_of_clean (p := p) hfit.2.2 d).symm
    · exact hclock _ ⟨rfl, rfl, le_rfl, fun _ => rfl, fun _ _ => rfl⟩

lemma evictWithClock_none {d : Disk} (h : (p.evictWithClock pins d).found = none) :
    ∃ q : BufferPool j, q.slots = p.slots ∧ q.capacity = p.capacity ∧
      clockSweeps pins (q.maxCapacity + 1) q = (none, (p.evictWithClock pins d).pool) := by
  have hclock : ∀ q : BufferPool j, (q.evictByClock pins d).found = none →
      clockSweeps pins (q.maxCapacity + 1) q = (none, (q.evictByClock pins d).pool) := by
    intro q hq
    rw [evictByClock] at hq ⊢
    split at hq
    · cases hq
    next hnone => rw [hnone]
  rw [evictWithClock] at h ⊢
  split at h
  · exact ⟨p, rfl, rfl, hclock p h⟩
  · split at h
    · cases h
    next hfit =>
      rw [if_neg hfit]
      refine ⟨_, ?_, ?_, hclock _ h⟩
      · rfl
      · rfl

/-- A slot that is not held is found at the second attempt at the latest. -/
lemma evictWithClock_twice {d : Disk} (h : (p.evictWithClock pins d).found = none)
    (hagain : ((p.evictWithClock pins d).pool.evictWithClock pins d).found = none) (hi : i < p.capacity) :
    Held pins (p.slots i) := by
  obtain ⟨hsame, -⟩ := p.evictWithClock_spec pins d
  obtain ⟨q, -, -, hq⟩ := p.evictWithClock_none pins h
  obtain ⟨r, hslots, hcap, hr⟩ := evictWithClock_none _ pins hagain
  obtain ⟨-, -, hpassed⟩ := clockSweeps_none pins (p := q) (n := q.maxCapacity + 1) (by omega) (by rw [hq])
  rw [hq] at hpassed
  have hlt : i < (p.evictWithClock pins d).pool.capacity := hi.trans_le hsame.capacity
  rw [← held_congr pins (hsame.entry i hi), ← hslots]
  refine held_of_sweep_none pins (sweep_eq_none pins (n := r.maxCapacity) (by rw [hr])) (hcap ▸ hlt) ?_
  rw [hslots]
  exact hpassed i hlt

end BufferPool

end LightningDB
