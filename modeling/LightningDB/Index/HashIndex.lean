import LightningDB.Framework.Chain
import LightningDB.Framework.FinMap
import LightningDB.Framework.Runs
import LightningDB.Index.HashPage
import Mathlib.Algebra.BigOperators.Ring.List
import Mathlib.Algebra.Order.BigOperators.Group.List
import Mathlib.Algebra.Order.Group.Multiset
import Mathlib.Data.Multiset.Filter

/-!
# The hash index

A hash index is a file: page 0 has the number of buckets, the pages after it are the buckets, and a full
page of a bucket is continued on an overflow page.  The operations are modelled on the pages as the
transaction that makes them sees them, byte by byte, and the loops along a chain take the number of
pages they may visit; more than the file has are never needed.

What an index is for is said without pages, by the multiset of the pairs that have been inserted and not
deleted.  `Represents` ties the two together: every bucket is a chain of its own, and the entries that
have not been marked as deleted are those pairs.  Each operation keeps it (`Represents.insert`,
`Represents.delete`), and what is read is what the multiset says.
-/

namespace LightningDB

open Page StoredValue

open Framework Function List Option

/-- `HashIndex`, and its file as a transaction sees it. -/
structure HashIndex where
  numBuckets : ℕ
  numPages : ℕ
  pages : ℕ → Page

/-- `page_states` is a vector, of 8 bytes for each page. -/
def pageLimit : ℕ := 2 ^ 60 - 1

namespace HashIndex

variable (f : HashIndex)

/-- `add_new_page`. -/
def addNewPage : Except LightningError (ℕ × HashIndex) :=
  if f.numPages < pageLimit then .ok (f.numPages, { f with numPages := f.numPages + 1 })
  else .error (.internal "capacity overflow")

def setPage (page : ℕ) (p : Page) : HashIndex :=
  { f with pages := Function.update f.pages page p }

def addPage (p : Page) : Except LightningError (ℕ × HashIndex) := do
  let (page, f) ← f.addNewPage
  return (page, f.setPage page p)

def headerPage (buckets : ℕ) : Page := zero.write 0 (leBytes 8 buckets)

def addBuckets : ℕ → HashIndex → Except LightningError HashIndex
  | 0, f => .ok f
  | n + 1, f => do
    let (_, f) ← f.addPage .zero
    addBuckets n f

/-- `initialize_header`. -/
def initializeHeader : Except LightningError HashIndex := do
  let (_, f) ← f.addPage (headerPage f.numBuckets)
  addBuckets f.numBuckets f

/-- `open_or_create_with_buckets`, of a file that does not exist. -/
def create (initialBuckets : UInt64) : Except LightningError HashIndex :=
  initializeHeader ⟨max initialBuckets.toNat 1, 0, fun _ => .zero⟩

def headerBuckets : ℕ := ((f.pages 0).readU64 0).toNat

/-- `allocate_overflow_page`. -/
def allocateOverflowPage : Except LightningError (ℕ × HashIndex) := f.addPage .zero

variable (hash : StoredValue → UInt64) (lossy : List UInt8 → String)

/-- `compute_hash`, with what the hasher makes of a value. -/
def computeHash (v : StoredValue) : UInt64 := hash v &&& ~~~deletedBit

/-! ## Operations -/

/-- The loop of `insert` along a chain. -/
def insertLoop (key : StoredValue) (row : UInt64) :
    ℕ → ℕ → HashIndex → Option (Except LightningError Unit × HashIndex)
  | 0, _, _ => none
  | fuel + 1, page, f =>
    let p := f.pages page
    if p.numEntries < maxEntriesPerPage then
      match key.serializeValue with
      | .error e => some (.error e, f)
      | .ok buf =>
        let (r, p) := p.writeEntryToPage p.numEntries (computeHash hash key) buf row
        some (r, f.setPage page p)
    else if p.nextPage = 0 then
      match f.allocateOverflowPage with
      | .error e => some (.error e, f)
      | .ok (newPage, f) =>
        insertLoop key row fuel newPage (f.setPage page ((f.pages page).setNextPage newPage))
    else insertLoop key row fuel p.nextPage f

variable (fuel : ℕ)

/-- `insert`. -/
def insert (f : HashIndex) (key : StoredValue) (row : UInt64) :
    Option (Except LightningError Unit × HashIndex) :=
  if f.headerBuckets = 0 then
    match f.initializeHeader with
    | .error e => some (.error e, f)
    | .ok f =>
      if f.numBuckets = 0 then some (.error (.internal "HashIndex reinit failed"), f)
      else insertLoop hash key row fuel (1 + (computeHash hash key).toNat % f.numBuckets) f
  else insertLoop hash key row fuel (1 + (computeHash hash key).toNat % f.headerBuckets) f

def matchesKey (key : StoredValue) (e : RawEntry) : Except LightningError Bool :=
  if e.isLive then
    if e.hash = computeHash hash key then do
      let stored ← deserializeValue lossy e.key
      return decide (stored = key)
    else .ok false
  else .ok false

/-- The first slot that has the key and the row. -/
def findSlot (p : Page) (key : StoredValue) (row : UInt64) : List ℕ → Except LightningError (Option ℕ)
  | [] => .ok none
  | i :: slots => do
    let e ← p.entryAt i
    if (← matchesKey hash lossy key e) && e.row = row then return some i
    findSlot p key row slots

/-- The loop of `delete` along a chain. -/
def deleteLoop (f : HashIndex) (key : StoredValue) (row : UInt64) :
    ℕ → ℕ → Option (Except LightningError Bool × HashIndex)
  | 0, _ => none
  | fuel + 1, page =>
    let p := f.pages page
    match findSlot hash lossy p key row (List.range p.numEntries) with
    | .error e => some (.error e, f)
    | .ok (some i) => some (.ok true, f.setPage page (p.tombstone i (computeHash hash key)))
    | .ok none => if p.nextPage = 0 then some (.ok false, f) else deleteLoop f key row fuel p.nextPage

/-- `delete`. -/
def delete (f : HashIndex) (key : StoredValue) (row : UInt64) :
    Option (Except LightningError Bool × HashIndex) :=
  if f.headerBuckets = 0 then some (.ok false, f)
  else deleteLoop hash lossy f key row fuel (1 + (computeHash hash key).toNat % f.headerBuckets)

/-- `scan_bucket_page`, from the given slots on. -/
def scanSlots (p : Page) (key : StoredValue) (limit : Option ℕ) :
    List ℕ → List UInt64 → Except LightningError (List UInt64)
  | [], results => .ok results
  | i :: slots, results =>
    if limit.any (· ≤ results.length) then .ok results
    else do
      let e ← p.entryAt i
      if ← matchesKey hash lossy key e then scanSlots p key limit slots (results ++ [e.row])
      else scanSlots p key limit slots results

/-- The loop of `lookup_multi` along a chain. -/
def lookupLoop (f : HashIndex) (key : StoredValue) (limit : Option ℕ) :
    ℕ → ℕ → List UInt64 → Option (Except LightningError (List UInt64))
  | 0, _, _ => none
  | fuel + 1, page, results =>
    let p := f.pages page
    match scanSlots hash lossy p key limit (List.range p.numEntries) results with
    | .error e => some (.error e)
    | .ok results =>
      if p.nextPage = 0 then some (.ok results) else lookupLoop f key limit fuel p.nextPage results

/-- `lookup_multi`. -/
def lookupMulti (f : HashIndex) (key : StoredValue) (limit : Option ℕ) :
    Option (Except LightningError (List UInt64)) :=
  if f.headerBuckets = 0 then some (.ok [])
  else
    lookupLoop hash lossy f key limit fuel (1 + (computeHash hash key).toNat % f.headerBuckets) []

def entrySlots (p : Page) : List ℕ → Except LightningError (List (StoredValue × UInt64))
  | [] => .ok []
  | i :: slots => do
    let e ← p.entryAt i
    if e.isLive then
      let key ← deserializeValue lossy e.key
      return (key, e.row) :: (← entrySlots p slots)
    else entrySlots p slots

/-- The loop of `entries` along a chain. -/
def entriesLoop (f : HashIndex) :
    ℕ → ℕ → Option (Except LightningError (List (StoredValue × UInt64)))
  | 0, _ => none
  | fuel + 1, page =>
    let p := f.pages page
    match entrySlots lossy p (List.range p.numEntries) with
    | .error e => some (.error e)
    | .ok here =>
      if p.nextPage = 0 then some (.ok here)
      else (entriesLoop f fuel p.nextPage).map fun rest => rest.map (here ++ ·)

/-- The entries of all of the given buckets. -/
def entriesOf (fuel : ℕ) (f : HashIndex) :
    List ℕ → Option (Except LightningError (List (StoredValue × UInt64)))
  | [] => some (.ok [])
  | b :: buckets =>
    match entriesLoop lossy f fuel b with
    | some (.ok here) => (entriesOf fuel f buckets).map fun rest => rest.map (here ++ ·)
    | r => r

/-- `entries`. -/
def entries (f : HashIndex) : Option (Except LightningError (List (StoredValue × UInt64))) :=
  entriesOf lossy fuel f (List.range' 1 f.headerBuckets)

/-! ## What a page has -/

abbrev bucketOf (n : ℕ) (key : StoredValue) : ℕ := 1 + (computeHash hash key).toNat % n

/-- The pair that an entry stands for. -/
def decode (e : RawEntry) : Option (StoredValue × UInt64) :=
  if e.isLive then (deserializeValue lossy e.key).toOption.map (·, e.row) else none

def pairs (p : Page) : List (StoredValue × UInt64) := p.rawEntries.filterMap (decode lossy)

/-- An entry that is not deleted has been made from a key, and is in the bucket of its hash. -/
def Stored (n bucket : ℕ) (e : RawEntry) : Prop :=
  e.isLive = true → ∃ v : StoredValue, v.serializeValue = .ok e.key ∧ e.hash = computeHash hash v ∧
    bucket = bucketOf hash n v

variable {hash lossy} {n bucket : ℕ} {e : RawEntry} {p : Page} {key : StoredValue} {row : UInt64}

lemma decode_eq_some (lossy : List UInt8 → String) (he : Stored hash n bucket e) (hlive : e.isLive = true) :
    ∃ v, decode lossy e = some (v, e.row) ∧ e.hash = computeHash hash v ∧
      bucket = bucketOf hash n v := by
  obtain ⟨v, hv, hhash, hbucket⟩ := he hlive
  refine ⟨v, ?_, hhash, hbucket⟩
  rw [decode, if_pos hlive, deserialize_serialize hv]
  rfl

lemma decode_of_not_live (hlive : e.isLive = false) : decode lossy e = none := by
  rw [decode, hlive, if_neg Bool.false_ne_true]

lemma row_of_decode {r : UInt64} {v : StoredValue} (h : decode lossy e = some (v, r)) : e.row = r := by
  rw [decode] at h
  split at h
  · obtain ⟨w, -, hw⟩ := map_eq_some_iff.1 h
    exact congrArg Prod.snd hw
  · cases h

lemma matchesKey_eq (he : Stored hash n bucket e) (key : StoredValue) :
    matchesKey hash lossy key e = .ok (decide ((decode lossy e).map (·.1) = some key)) := by
  cases hlive : e.isLive with
  | false =>
    rw [matchesKey, hlive, decode_of_not_live hlive]
    rfl
  | true =>
    obtain ⟨v, hv, hhash, -⟩ := he hlive
    rw [matchesKey, decode, hlive, if_pos rfl, deserialize_serialize hv]
    split
    · simp [Except.toOption, bind, Except.bind, pure, Except.pure]
    next hne =>
      have hkey : v ≠ key := fun heq => hne (heq ▸ hhash)
      simp [Except.toOption, hkey]

section Slots

variable {slots : List ℕ} (hslots : ∀ i ∈ slots, i < maxEntriesPerPage ∧ Stored hash n bucket (p.rawEntry i))
include hslots

lemma scanSlots_eq (key : StoredValue) (results : List UInt64) :
    scanSlots hash lossy p key none slots results =
      .ok (results ++ ((slots.filterMap fun i => decode lossy (p.rawEntry i)).filter
        (·.1 = key)).map (·.2)) := by
  induction slots generalizing results with
  | nil => simp [scanSlots]
  | cons i slots ih =>
    obtain ⟨hi, hstored⟩ := hslots i mem_cons_self
    have hrest := ih fun j hj => hslots j (mem_cons_of_mem _ hj)
    rw [scanSlots, entryAt_of_lt hi]
    simp only [bind, Except.bind, matchesKey_eq hstored]
    cases hdecode : decode lossy (p.rawEntry i) with
    | none => simp [hdecode, hrest]
    | some x =>
      obtain ⟨v, r⟩ := x
      by_cases hv : v = key
      · simp [hdecode, hv, hrest, row_of_decode hdecode]
      · simp [hdecode, hv, hrest]

lemma entrySlots_eq :
    entrySlots lossy p slots = .ok (slots.filterMap fun i => decode lossy (p.rawEntry i)) := by
  induction slots with
  | nil => rfl
  | cons i slots ih =>
    obtain ⟨hi, hstored⟩ := hslots i mem_cons_self
    have hrest := ih fun j hj => hslots j (mem_cons_of_mem _ hj)
    rw [entrySlots, entryAt_of_lt hi, filterMap_cons]
    cases hlive : (p.rawEntry i).isLive with
    | false =>
      rw [decode_of_not_live hlive]
      simp [bind, Except.bind, hlive, hrest]
    | true =>
      obtain ⟨v, hv, -⟩ := hstored hlive
      rw [decode]
      simp [bind, Except.bind, pure, Except.pure, Except.toOption, hlive, hrest,
        deserialize_serialize hv]

/-- What is found is the pair, and if nothing is found, it is not there. -/
lemma findSlot_eq (key : StoredValue) (row : UInt64) :
    (∃ i ∈ slots, findSlot hash lossy p key row slots = .ok (some i) ∧
        decode lossy (p.rawEntry i) = some (key, row)) ∨
      findSlot hash lossy p key row slots = .ok none ∧
        ∀ i ∈ slots, decode lossy (p.rawEntry i) ≠ some (key, row) := by
  induction slots with
  | nil => exact .inr ⟨rfl, fun _ h => absurd h not_mem_nil⟩
  | cons i slots ih =>
    obtain ⟨hi, hstored⟩ := hslots i mem_cons_self
    have hstep : findSlot hash lossy p key row (i :: slots) =
        if decode lossy (p.rawEntry i) = some (key, row) then .ok (some i)
        else findSlot hash lossy p key row slots := by
      rw [findSlot, entryAt_of_lt hi]
      simp only [bind, Except.bind, matchesKey_eq hstored]
      cases hdecode : decode lossy (p.rawEntry i) with
      | none => simp
      | some x =>
        obtain ⟨v, r⟩ := x
        rw [row_of_decode hdecode]
        by_cases hv : v = key
        · by_cases hr : r = row <;> simp [pure, Except.pure]
        · simp [hv]
    rw [hstep]
    split
    next hdecode => exact .inl ⟨i, mem_cons_self, rfl, hdecode⟩
    next hdecode =>
      rcases ih fun j hj => hslots j (mem_cons_of_mem _ hj) with ⟨j, hj, hfind, hpair⟩ | ⟨hnone, hall⟩
      · exact .inl ⟨j, mem_cons_of_mem _ hj, hfind, hpair⟩
      · exact .inr ⟨hnone, forall_mem_cons.2 ⟨hdecode, hall⟩⟩

end Slots

/-- The entries of a page are in order. -/
structure PageOk (hash : StoredValue → UInt64) (n bucket : ℕ) (p : Page) : Prop where
  count : p.numEntries ≤ maxEntriesPerPage
  stored : ∀ e ∈ p.rawEntries, Stored hash n bucket e

lemma pairs_eq (p : Page) :
    pairs lossy p = (range p.numEntries).filterMap fun i => decode lossy (p.rawEntry i) := by
  rw [pairs, rawEntries, filterMap_map]
  rfl

lemma PageOk.slots (h : PageOk hash n bucket p) :
    ∀ i ∈ range p.numEntries, i < maxEntriesPerPage ∧ Stored hash n bucket (p.rawEntry i) :=
  fun i hi => ⟨(mem_range.1 hi).trans_le h.count,
    h.stored _ (mem_map.2 ⟨i, hi, rfl⟩)⟩

lemma pairs_zero : pairs lossy zero = [] := by rw [pairs, rawEntries_zero]; rfl

lemma pageOk_zero : PageOk hash n bucket zero where
  count := by
    exact Nat.zero_le _
  stored e he := by
    exact absurd he not_mem_nil

variable {p' : Page} {i r : ℕ} {x : StoredValue × UInt64}

lemma PageOk.of_rawEntries (h : PageOk hash n bucket p) (heq : p'.rawEntries = p.rawEntries) :
    PageOk hash n bucket p' where
  count := by rw [← length_rawEntries, heq, length_rawEntries]; exact h.count
  stored := by rw [heq]; exact h.stored

lemma isLive_computeHash (key : List UInt8) (v : StoredValue) (row : UInt64) :
    (⟨computeHash hash v, key, row⟩ : RawEntry).isLive = true := by
  rw [RawEntry.isLive, computeHash, UInt64.and_assoc, UInt64.not_and_self, UInt64.and_zero]
  rfl

lemma isLive_deleted (e : RawEntry) (h : UInt64) :
    ({ e with hash := h ||| deletedBit } : RawEntry).isLive = false := by
  have habsorb : (h ||| deletedBit) &&& deletedBit = deletedBit := by
    apply UInt64.eq_of_toBitVec_eq
    ext i hi
    simp only [UInt64.toBitVec_and, UInt64.toBitVec_or, BitVec.getElem_and, BitVec.getElem_or]
    cases deletedBit.toBitVec[i] <;> simp
  rw [RawEntry.isLive, habsorb]
  decide

lemma PageOk.add {buf : List UInt8} (h : PageOk hash n bucket p)
    (hfull : p.numEntries < maxEntriesPerPage) (hkey : key.serializeValue = .ok buf)
    (hbucket : bucket = bucketOf hash n key)
    (hraw : p'.rawEntries = p.rawEntries ++ [⟨computeHash hash key, buf, row⟩]) :
    PageOk hash n bucket p' ∧ pairs lossy p' = pairs lossy p ++ [(key, row)] := by
  refine ⟨⟨?_, ?_⟩, ?_⟩
  · rw [← length_rawEntries, hraw, length_append, length_rawEntries]
    exact hfull
  · rw [hraw]
    exact forall_mem_append.2 ⟨h.stored, forall_mem_singleton.2 fun _ => ⟨key, hkey, rfl, hbucket⟩⟩
  · rw [pairs, hraw, filterMap_append]
    rw [filterMap_cons, decode, isLive_computeHash, deserialize_serialize hkey]
    rfl

lemma filterMap_modify_perm {α β : Type} {g : α → Option β} {f : α → α} {l : List α} {a : α} {x : β}
    (ha : l[i]? = some a) (hg : g a = some x) (hf : g (f a) = none) :
    (l.filterMap g).Perm (x :: (l.modify i f).filterMap g) := by
  induction l generalizing i with
  | nil => simp at ha
  | cons b l ih =>
    cases i with
    | zero =>
      rw [getElem?_cons_zero, some.injEq] at ha
      rw [ha, modify_zero_cons, filterMap_cons_some hg, filterMap_cons_none hf]
    | succ i =>
      rw [modify_succ_cons, filterMap_cons, filterMap_cons]
      cases g b with
      | none => exact ih ha
      | some y => exact ((ih ha).cons y).trans (List.Perm.swap x y _)

lemma PageOk.remove (h : PageOk hash n bucket p) (hi : i < p.numEntries)
    (hpair : decode lossy (p.rawEntry i) = some (key, row)) :
    PageOk hash n bucket (p.tombstone i (computeHash hash key)) ∧
      (pairs lossy p).Perm ((key, row) :: pairs lossy (p.tombstone i (computeHash hash key))) := by
  have hraw := rawEntries_tombstone hi h.count (computeHash hash key)
  have hget : p.rawEntries[i]? = some (p.rawEntry i) := by
    rw [rawEntries, getElem?_map, getElem?_range hi]
    rfl
  refine ⟨⟨?_, fun e he => ?_⟩, ?_⟩
  · rw [← length_rawEntries, hraw, length_modify, length_rawEntries]
    exact h.count
  · rw [hraw] at he
    obtain ⟨j, hj⟩ := getElem?_of_mem he
    rw [getElem?_modify] at hj
    obtain ⟨e₀, he₀, hmod⟩ := map_eq_some_iff.1 hj
    split at hmod
    · rw [← hmod]
      intro hlive
      rw [isLive_deleted] at hlive
      cases hlive
    · rw [← hmod]
      exact h.stored e₀ (mem_of_getElem? he₀)
  · rw [pairs, pairs, hraw]
    exact filterMap_modify_perm hget hpair (decode_of_not_live (isLive_deleted _ _))

/-! ## Along a chain -/

def nextOf (q : ℕ) : ℕ := (f.pages q).nextPage

def bucketPairs (lossy : List UInt8 → String) (f : HashIndex) (l : List ℕ) : List (StoredValue × UInt64) :=
  l.flatMap fun q => pairs lossy (f.pages q)

variable {f f' : HashIndex} {l : List ℕ} {q fuel : ℕ}

lemma headerBuckets_congr (h : f'.pages 0 = f.pages 0) : f'.headerBuckets = f.headerBuckets := by
  rw [headerBuckets, h, headerBuckets]

section Loops

variable (hl : Linked f.nextOf q l) (hok : ∀ r ∈ l, PageOk hash n bucket (f.pages r))
  (hfuel : l.length ≤ fuel)
include hl hok hfuel

lemma lookupLoop_eq (results : List UInt64) : lookupLoop hash lossy f key none fuel q results =
      some (.ok (results ++ ((bucketPairs lossy f l).filter (·.1 = key)).map (·.2))) := by
  revert hok results
  refine hl.loop hfuel ?_ ?_
  · intro q fuel hend hok results
    rw [lookupLoop, scanSlots_eq (hok q (mem_singleton.2 rfl)).slots, ← pairs_eq]
    simp [show (f.pages q).nextPage = 0 from hend, bucketPairs]
  · intro q l fuel hnext ih hok results
    rw [lookupLoop, scanSlots_eq (hok q mem_cons_self).slots, ← pairs_eq]
    refine (if_neg hnext).trans ((ih (fun r hr => hok r (mem_cons_of_mem _ hr)) _).trans ?_)
    simp [bucketPairs]

lemma entriesLoop_eq : entriesLoop lossy f fuel q = some (.ok (bucketPairs lossy f l)) := by
  revert hok
  refine hl.loop hfuel ?_ ?_
  · intro q fuel hend hok
    rw [entriesLoop, entrySlots_eq (hok q (mem_singleton.2 rfl)).slots, ← pairs_eq]
    simp [show (f.pages q).nextPage = 0 from hend, bucketPairs]
  · intro q l fuel hnext ih hok
    rw [entriesLoop, entrySlots_eq (hok q mem_cons_self).slots, ← pairs_eq]
    refine (if_neg hnext).trans ?_
    rw [show (f.pages q).nextPage = f.nextOf q from rfl,
      ih fun r hr => hok r (mem_cons_of_mem _ hr)]
    simp [bucketPairs, Except.map]

/-- The first page that has the pair loses it, and if there is none, nothing changes. -/
lemma deleteLoop_eq (lossy : List UInt8 → String) (key : StoredValue) (row : UInt64) :
    (∃ r ∈ l, ∃ i < (f.pages r).numEntries, decode lossy ((f.pages r).rawEntry i) = some (key, row) ∧
        deleteLoop hash lossy f key row fuel q =
          some (.ok true, f.setPage r ((f.pages r).tombstone i (computeHash hash key)))) ∨
      deleteLoop hash lossy f key row fuel q = some (.ok false, f) ∧
        (key, row) ∉ bucketPairs lossy f l := by
  have hpage : ∀ r ∈ l, (∃ i < (f.pages r).numEntries,
      findSlot hash lossy (f.pages r) key row (range (f.pages r).numEntries) = .ok (some i) ∧
        decode lossy ((f.pages r).rawEntry i) = some (key, row)) ∨
      findSlot hash lossy (f.pages r) key row (range (f.pages r).numEntries) = .ok none ∧
        (key, row) ∉ pairs lossy (f.pages r) := by
    intro r hr
    rcases findSlot_eq (hok r hr).slots key row with ⟨i, hi, hfind, hpair⟩ | ⟨hnone, hall⟩
    · exact .inl ⟨i, mem_range.1 hi, hfind, hpair⟩
    · refine .inr ⟨hnone, fun hmem => ?_⟩
      rw [pairs_eq] at hmem
      obtain ⟨i, hi, hpair⟩ := mem_filterMap.1 hmem
      exact hall i hi hpair
  revert hpage
  refine hl.loop hfuel ?_ ?_
  · intro q fuel hend hpage
    have hq : q ∈ [q] := mem_singleton.2 rfl
    rw [deleteLoop]
    rcases hpage q hq with ⟨i, hi, hfind, hpair⟩ | ⟨hnone, habsent⟩
    · exact .inl ⟨q, hq, i, hi, hpair, by rw [hfind]⟩
    · refine .inr ⟨by rw [hnone]; exact if_pos hend, ?_⟩
      simpa [bucketPairs] using habsent
  · intro q l fuel hnext ih hpage
    rw [deleteLoop]
    rcases hpage q mem_cons_self with ⟨i, hi, hfind, hpair⟩ | ⟨hnone, habsent⟩
    · exact .inl ⟨q, mem_cons_self, i, hi, hpair, by rw [hfind]⟩
    · rw [hnone]
      rw [if_neg (show ¬ (f.pages q).nextPage = 0 from hnext)]
      rcases ih fun r hr => hpage r (mem_cons_of_mem _ hr) with ⟨r, hr, i, hi, hpair, hrun⟩ | ⟨hrun, hrest⟩
      · exact .inl ⟨r, mem_cons_of_mem _ hr, i, hi, hpair, hrun⟩
      · refine .inr ⟨hrun, ?_⟩
        rw [bucketPairs, flatMap_cons, mem_append]
        exact fun h => h.elim habsent hrest

end Loops

/-! ## An entry is inserted along a chain -/

/-- A key that can be written to a page. -/
def Storable (key : StoredValue) : Prop := ∃ buf, key.serializeValue = .ok buf

/-- What inserting a pair along a chain comes to: pages of it are rewritten, at most one page is added at
its end, and the pair is added or there is an error. -/
structure Inserts (hash : StoredValue → UInt64) (lossy : List UInt8 → String) (n bucket : ℕ)
    (key : StoredValue) (row : UInt64) (f : HashIndex) (q : ℕ) (l : List ℕ)
    (r : Except LightningError Unit) (f' : HashIndex) (l' : List ℕ) : Prop where
  linked : Linked f'.nextOf q l'
  grown : l' = l ∧ f'.numPages = f.numPages ∨
    l' = l ++ [f.numPages] ∧ f'.numPages = f.numPages + 1 ∧ f.numPages < pageLimit
  others : ∀ r, r ∉ l' → f'.pages r = f.pages r
  page : ∀ r ∈ l', PageOk hash n bucket (f'.pages r)
  added : r = .ok () ∧ Storable key ∧ (bucketPairs lossy f' l').Perm ((key, row) :: bucketPairs lossy f l) ∨
    (∃ e, r = .error e ∧ (f.numPages < pageLimit → key.serializeValue = .error e)) ∧
      bucketPairs lossy f' l' = bucketPairs lossy f l

lemma bucketPairs_congr (h : ∀ r ∈ l, f'.pages r = f.pages r) :
    bucketPairs lossy f' l = bucketPairs lossy f l := by
  exact flatMap_congr fun r hr => by rw [h r hr]

@[simp] lemma setPage_pages_self (p : Page) : (f.setPage q p).pages q = p :=
  update_self ..

lemma setPage_pages_of_ne (h : r ≠ q) (p : Page) : (f.setPage q p).pages r = f.pages r :=
  update_of_ne h ..

lemma setPage_of {P : Page → Prop} (hp : r = q → P p) (hr : P (f.pages r)) :
    P ((f.setPage q p).pages r) := by
  by_cases h : r = q
  · rw [h, setPage_pages_self]
    exact hp h
  · rwa [setPage_pages_of_ne h]

lemma nextOf_setPage (hnext : p.nextPage = (f.pages q).nextPage) : (f.setPage q p).nextOf = f.nextOf :=
  funext fun r => setPage_of (P := (·.nextPage = f.nextOf r)) (fun h => by rw [h]; exact hnext) rfl

/-- One page of a chain loses a pair. -/
lemma bucketPairs_setPage_perm (hr : r ∈ l) (hnodup : l.Nodup)
    (hperm : (pairs lossy (f.pages r)).Perm (x :: pairs lossy p')) :
    (bucketPairs lossy f l).Perm (x :: bucketPairs lossy (f.setPage r p') l) := by
  have hsplit : ∀ g : HashIndex, (bucketPairs lossy g l).Perm
      (pairs lossy (g.pages r) ++ bucketPairs lossy g (l.erase r)) :=
    fun g => (perm_cons_erase hr).flatMap_right fun q => pairs lossy (g.pages q)
  have hrest : bucketPairs lossy (f.setPage r p') (l.erase r) = bucketPairs lossy f (l.erase r) :=
    bucketPairs_congr fun q hq => setPage_pages_of_ne (hnodup.mem_erase_iff.1 hq).1 p'
  have hafter := hsplit (f.setPage r p')
  rw [setPage_pages_self, hrest] at hafter
  have hbefore : (bucketPairs lossy f l).Perm (x :: (pairs lossy p' ++ bucketPairs lossy f (l.erase r))) :=
    (hsplit f).trans (hperm.append_right _)
  exact hbefore.trans (hafter.symm.cons x)

lemma insertLoop_here (lossy : List UInt8 → String) (row : UInt64) (fuel : ℕ)
    (hok : PageOk hash n bucket (f.pages q)) (hfull : (f.pages q).numEntries < maxEntriesPerPage)
    (hbucket : bucket = bucketOf hash n key) :
    ∃ r p', insertLoop hash key row (fuel + 1) q f = some (r, f.setPage q p') ∧
      p'.nextPage = (f.pages q).nextPage ∧ PageOk hash n bucket p' ∧
      (r = .ok () ∧ Storable key ∧ pairs lossy p' = pairs lossy (f.pages q) ++ [(key, row)] ∨
        (∃ e, r = .error e ∧ key.serializeValue = .error e) ∧
          pairs lossy p' = pairs lossy (f.pages q)) := by
  rw [insertLoop]
  rw [if_pos hfull]
  cases hkey : key.serializeValue with
  | error e =>
    refine ⟨.error e, f.pages q, ?_, rfl, hok, .inr ⟨⟨e, rfl, rfl⟩, rfl⟩⟩
    rw [setPage, update_eq_self]
  | ok buf =>
    obtain ⟨p', hwrite, hraw, hnext⟩ := writeEntryToPage_eq hfull
      (length_serializeValue hkey) (computeHash hash key) row
    have hadd : PageOk hash n bucket p' ∧ pairs lossy p' = pairs lossy (f.pages q) ++ [(key, row)] :=
      hok.add hfull hkey hbucket hraw
    refine ⟨.ok (), p', ?_, hnext, hadd.1, .inl ⟨rfl, ⟨buf, hkey⟩, hadd.2⟩⟩
    dsimp only
    rw [hwrite]

lemma bucketPairs_cons (f : HashIndex) (q : ℕ) (l : List ℕ) :
    bucketPairs lossy f (q :: l) = pairs lossy (f.pages q) ++ bucketPairs lossy f l :=
  flatMap_cons

lemma allocateOverflowPage_of_lt (h : f.numPages < pageLimit) : f.allocateOverflowPage =
      .ok (f.numPages, { f with numPages := f.numPages + 1 }.setPage f.numPages .zero) := by
  rw [allocateOverflowPage, addPage, addNewPage, if_pos h]
  rfl

lemma allocateOverflowPage_of_le (h : pageLimit ≤ f.numPages) :
    f.allocateOverflowPage = .error (.internal "capacity overflow") := by
  rw [allocateOverflowPage, addPage, addNewPage, if_neg (not_lt.2 h)]
  rfl

lemma inserts_head (lossy : List UInt8 → String) (row : UInt64) (fuel : ℕ) (hl : Linked f.nextOf q l) (hnodup : l.Nodup)
    (hok : ∀ r ∈ l, PageOk hash n bucket (f.pages r))
    (hbucket : bucket = bucketOf hash n key)
    (hfull : (f.pages q).numEntries < maxEntriesPerPage) :
    ∃ r f', insertLoop hash key row (fuel + 1) q f = some (r, f') ∧
      Inserts hash lossy n bucket key row f q l r f' l := by
  obtain ⟨r, p', hrun, hnext, hok', hadd⟩ := insertLoop_here lossy row fuel
    (hok q hl.mem_head) hfull hbucket
  refine ⟨r, f.setPage q p', hrun, nextOf_setPage hnext ▸ hl, .inl ⟨rfl, rfl⟩, fun s hs => ?_,
    fun s hs => setPage_of (fun _ => hok') (hok s hs), ?_⟩
  · exact setPage_pages_of_ne (fun hsq : s = q => hs (hsq ▸ hl.mem_head)) p'
  · obtain ⟨t, rfl⟩ : ∃ t, l = q :: t := by cases hl <;> exact ⟨_, rfl⟩
    have hrest : bucketPairs lossy (f.setPage q p') t = bucketPairs lossy f t :=
      bucketPairs_congr fun s hs =>
        setPage_pages_of_ne (fun hsq : s = q => (nodup_cons.1 hnodup).1 (hsq ▸ hs)) p'
    rw [bucketPairs_cons, bucketPairs_cons, setPage_pages_self, hrest]
    rcases hadd with ⟨hr, hkey, hpairs⟩ | ⟨⟨e, hr, hkey⟩, hpairs⟩
    · refine .inl ⟨hr, hkey, ?_⟩
      rw [hpairs, append_assoc]
      exact perm_middle
    · exact .inr ⟨⟨e, hr, fun _ => hkey⟩, by rw [hpairs]⟩

/-- The chain is one full page, and goes on with a new one. -/
lemma inserts_overflow (hend : (f.pages q).nextPage = 0) (hq : q < f.numPages)
    (hok : PageOk hash n bucket (f.pages q)) (hbucket : bucket = bucketOf hash n key)
    (hfull : ¬ (f.pages q).numEntries < maxEntriesPerPage) :
    ∃ r f' l', insertLoop hash key row (fuel + 2) q f = some (r, f') ∧
      Inserts hash lossy n bucket key row f q [q] r f' l' := by
  rw [insertLoop]
  rw [if_neg hfull, if_pos hend]
  rcases lt_or_ge f.numPages pageLimit with hlimit | hlimit
  · rw [allocateOverflowPage_of_lt hlimit]
    dsimp only
    have hne : q ≠ f.numPages := ne_of_lt hq
    have hsmall : f.numPages < 2 ^ 64 := hlimit.trans_le (by decide)
    rw [setPage_pages_of_ne hne]
    -- the file with the new page, after the full page has been linked to it
    generalize hg : HashIndex.setPage _ q ((f.pages q).setNextPage f.numPages) = g
    have hgq : g.pages q = (f.pages q).setNextPage f.numPages := by rw [← hg, setPage_pages_self]
    have hgnew : g.pages f.numPages = .zero := by
      rw [← hg, setPage_pages_of_ne hne.symm, setPage_pages_self]
    have hgrest : ∀ s, s ≠ q → s ≠ f.numPages → g.pages s = f.pages s := by
      intro s hs hs'
      rw [← hg, setPage_pages_of_ne hs, setPage_pages_of_ne hs']
    have hgnum : g.numPages = f.numPages + 1 := by rw [← hg]; rfl
    obtain ⟨r, p', hrun, hnext, hok', hadd⟩ := insertLoop_here lossy row fuel
      (hgnew ▸ pageOk_zero) (by rw [hgnew]; decide) hbucket
    have hpages : ∀ s, s ≠ f.numPages → (g.setPage f.numPages p').pages s = g.pages s :=
      fun s hs => setPage_pages_of_ne hs p'
    refine ⟨r, g.setPage f.numPages p', [q, f.numPages], hrun, .cons ?_ ?_,
      .inr ⟨rfl, hgnum, hlimit⟩, fun s hs => ?_, fun s hs => ?_, ?_⟩
    · rw [nextOf, hpages q hne, hgq, nextPage_setNextPage hsmall]
      exact ne_of_gt (Nat.zero_lt_of_lt hq)
    · rw [nextOf, hpages q hne, hgq, nextPage_setNextPage hsmall]
      refine .last ?_
      rw [nextOf, setPage_pages_self, hnext, hgnew, nextPage_zero]
    · rw [mem_cons, mem_singleton, not_or] at hs
      rw [hpages s hs.2, hgrest s hs.1 hs.2]
    · rw [mem_cons, mem_singleton] at hs
      rcases hs with rfl | rfl
      · rw [hpages s hne, hgq]
        exact hok.of_rawEntries (rawEntries_setNextPage _)
      · rw [setPage_pages_self]
        exact hok'
    · have hfirst : pairs lossy ((f.pages q).setNextPage f.numPages) = pairs lossy (f.pages q) := by
        rw [pairs, rawEntries_setNextPage, pairs]
      rw [hgnew, pairs_zero] at hadd
      simp only [bucketPairs, flatMap_cons, flatMap_nil, append_nil, setPage_pages_self,
        hpages q hne, hgq, hfirst]
      rcases hadd with ⟨hr, hkey, hpairs⟩ | ⟨⟨e, hr, hkey⟩, hpairs⟩
      · exact .inl ⟨hr, hkey, by rw [hpairs]; exact perm_append_singleton _ _⟩
      · exact .inr ⟨⟨e, hr, fun _ => hkey⟩, by rw [hpairs, append_nil]⟩
  · rw [allocateOverflowPage_of_le hlimit]
    refine ⟨_, f, [q], rfl, .last hend, .inl ⟨rfl, rfl⟩, fun _ _ => rfl, ?_,
      .inr ⟨⟨_, rfl, fun h => absurd h (not_lt.2 hlimit)⟩, rfl⟩⟩
    intro s hs
    rw [mem_singleton.1 hs]
    exact hok

/-- **Inserting along a chain.** -/
lemma insertLoop_inserts (lossy : List UInt8 → String) (row : UInt64) (hl : Linked f.nextOf q l)
    (hnodup : l.Nodup) (hinside : ∀ r ∈ l, r < f.numPages) (hok : ∀ r ∈ l, PageOk hash n bucket (f.pages r))
    (hbucket : bucket = bucketOf hash n key) (hfuel : l.length < fuel) :
    ∃ r f' l', insertLoop hash key row fuel q f = some (r, f') ∧
      Inserts hash lossy n bucket key row f q l r f' l' := by
  induction hl generalizing fuel with
  | @last q hend =>
    obtain ⟨fuel, rfl⟩ := Nat.exists_eq_add_of_le' hfuel
    by_cases hfull : (f.pages q).numEntries < maxEntriesPerPage
    · obtain ⟨r, f', hrun, h⟩ := inserts_head lossy row (fuel + 1) (.last hend) hnodup
        hok hbucket hfull
      exact ⟨r, f', _, hrun, h⟩
    · have hq : q ∈ [q] := mem_singleton.2 rfl
      exact inserts_overflow hend (hinside q hq) (hok q hq) hbucket hfull
  | @cons q l hnext hrest ih =>
    obtain ⟨fuel, rfl⟩ := Nat.exists_eq_add_of_le' (Nat.one_le_of_lt hfuel)
    by_cases hfull : (f.pages q).numEntries < maxEntriesPerPage
    · obtain ⟨r, f', hrun, h⟩ := inserts_head lossy row fuel (.cons hnext hrest) hnodup hok hbucket hfull
      exact ⟨r, f', _, hrun, h⟩
    · obtain ⟨hhead, hnodup⟩ := nodup_cons.1 hnodup
      obtain ⟨r, f', l', hrun, h⟩ := ih hnodup (fun r hr => hinside r (mem_cons_of_mem _ hr))
        (fun r hr => hok r (mem_cons_of_mem _ hr)) (Nat.lt_of_succ_lt_succ hfuel)
      -- a page added at the end is past the file, so `q` is not written
      have hq : q ∉ l' := by
        rcases h.grown with ⟨hl', -⟩ | ⟨hl', -⟩
        · rwa [hl']
        · rw [hl', mem_append, mem_singleton, not_or]
          exact ⟨hhead, ne_of_lt (hinside q mem_cons_self)⟩
      have hpage : f'.pages q = f.pages q := h.others q hq
      have hnextOf : f'.nextOf q = f.nextOf q := by rw [nextOf, hpage, nextOf]
      have hstep : insertLoop hash key row (fuel + 1) q f = insertLoop hash key row fuel (f.nextOf q) f := by
        rw [insertLoop]
        rw [if_neg hfull]
        exact if_neg hnext
      refine ⟨r, f', q :: l', hstep.trans hrun, .cons (hnextOf ▸ hnext) (hnextOf ▸ h.linked), ?_,
        fun s hs => h.others s fun hmem => hs (mem_cons_of_mem _ hmem), fun s hs => ?_, ?_⟩
      · rcases h.grown with ⟨hl', hnum⟩ | ⟨hl', hnum⟩
        · exact .inl ⟨by rw [hl'], hnum⟩
        · exact .inr ⟨by rw [hl', cons_append], hnum⟩
      · rcases mem_cons.1 hs with rfl | hs
        · rw [hpage]
          exact hok s mem_cons_self
        · exact h.page s hs
      · rw [bucketPairs_cons, bucketPairs_cons, hpage]
        rcases h.added with ⟨hr, hkey, hperm⟩ | ⟨hr, heq⟩
        · exact .inl ⟨hr, hkey, (hperm.append_left _).trans perm_middle⟩
        · exact .inr ⟨hr, by rw [heq]⟩

/-! ## The whole file -/

def allPairs (lossy : List UInt8 → String) (f : HashIndex) (chain : ℕ → List ℕ) :
    List (StoredValue × UInt64) :=
  (List.range' 1 f.headerBuckets).flatMap fun b => bucketPairs lossy f (chain b)

/-- **The abstraction relation.**  The buckets are chains of pages of their own, and the pairs on them
are the given ones. -/
structure Represents (hash : StoredValue → UInt64) (lossy : List UInt8 → String) (f : HashIndex)
    (chain : ℕ → List ℕ) (m : Multiset (StoredValue × UInt64)) : Prop where
  buckets : 0 < f.headerBuckets
  linked : ∀ b ∈ List.range' 1 f.headerBuckets, Linked f.nextOf b (chain b)
  nodup : ∀ b ∈ List.range' 1 f.headerBuckets, (chain b).Nodup
  apart : ∀ b ∈ List.range' 1 f.headerBuckets, ∀ c ∈ List.range' 1 f.headerBuckets,
    ∀ q ∈ chain b, q ∈ chain c → b = c
  inside : ∀ b ∈ List.range' 1 f.headerBuckets, ∀ q ∈ chain b, 0 < q ∧ q < f.numPages
  page : ∀ b ∈ List.range' 1 f.headerBuckets, ∀ q ∈ chain b, PageOk hash f.headerBuckets b (f.pages q)
  content : (allPairs lossy f chain : Multiset (StoredValue × UInt64)) = m

variable {chain : ℕ → List ℕ} {m : Multiset (StoredValue × UInt64)}

lemma PageOk.bucket_of_mem (h : PageOk hash n bucket p) (hx : x ∈ pairs lossy p) :
    bucket = bucketOf hash n x.1 := by
  obtain ⟨e, he, hdecode⟩ := mem_filterMap.1 hx
  cases hlive : e.isLive with
  | false =>
    rw [decode_of_not_live hlive] at hdecode
    cases hdecode
  | true =>
    obtain ⟨v, hv, -, hbucket⟩ := decode_eq_some lossy (h.stored e he) hlive
    rw [hv, some.injEq] at hdecode
    rw [← hdecode]
    exact hbucket

namespace Represents

variable (h : Represents hash lossy f chain m)
include h

lemma bucket_mem (key : StoredValue) :
    bucketOf hash f.headerBuckets key ∈ range' 1 f.headerBuckets := by
  have := Nat.mod_lt (computeHash hash key).toNat h.buckets
  rw [mem_range'_1, bucketOf]
  omega

variable {b : ℕ}

lemma length_chain (hb : b ∈ List.range' 1 f.headerBuckets) : (chain b).length ≤ f.numPages := by
  have hsub : chain b ⊆ range f.numPages := fun q hq => mem_range.2 (h.inside b hb q hq).2
  have := ((h.nodup b hb).subperm hsub).length_le
  rwa [length_range] at this

lemma content_split (hb : b ∈ List.range' 1 f.headerBuckets) :
    m = ↑(bucketPairs lossy f (chain b)) +
      ↑(((range' 1 f.headerBuckets).erase b).flatMap fun c => bucketPairs lossy f (chain c)) := by
  rw [← h.content, Multiset.coe_add, Multiset.coe_eq_coe]
  exact (perm_cons_erase hb).flatMap_right fun c => bucketPairs lossy f (chain c)

lemma filter_content (key : StoredValue) : m.filter (·.1 = key) =
      ↑((bucketPairs lossy f (chain (bucketOf hash f.headerBuckets key))).filter
        (·.1 = key)) := by
  have hother : (((range' 1 f.headerBuckets).erase
      (bucketOf hash f.headerBuckets key)).flatMap fun c =>
        bucketPairs lossy f (chain c)).filter (·.1 = key) = [] := by
    rw [filter_eq_nil_iff]
    intro x hx hkey
    obtain ⟨c, hc, hxc⟩ := mem_flatMap.1 hx
    obtain ⟨hne, hc⟩ := (List.Nodup.mem_erase_iff nodup_range').1 hc
    obtain ⟨q, hq, hxq⟩ := mem_flatMap.1 hxc
    have hbucket := (h.page c hc q hq).bucket_of_mem hxq
    rw [of_decide_eq_true hkey] at hbucket
    exact hne hbucket
  rw [h.content_split (h.bucket_mem key), Multiset.filter_add, Multiset.filter_coe, Multiset.filter_coe,
    hother]
  exact add_zero _

/-- **What a lookup returns.** -/
lemma lookupMulti_eq (hfuel : f.numPages ≤ fuel) (key : StoredValue) :
    ∃ rows, lookupMulti hash lossy fuel f key none = some (.ok rows) ∧
      (rows : Multiset UInt64) = (m.filter (·.1 = key)).map (·.2) := by
  have hb := h.bucket_mem key
  have hrun : lookupMulti hash lossy fuel f key none = some (.ok (((bucketPairs lossy f
      (chain (bucketOf hash f.headerBuckets key))).filter (·.1 = key)).map (·.2))) := by
    rw [lookupMulti, if_neg (ne_of_gt h.buckets),
      lookupLoop_eq (h.linked _ hb) (h.page _ hb) ((h.length_chain hb).trans hfuel), nil_append]
  refine ⟨_, hrun, ?_⟩
  rw [h.filter_content, Multiset.map_coe]

/-- **What `entries` returns.** -/
lemma entries_eq (hfuel : f.numPages ≤ fuel) :
    entries lossy fuel f = some (.ok (allPairs lossy f chain)) := by
  have hall : ∀ bs, (∀ b ∈ bs, b ∈ range' 1 f.headerBuckets) →
      entriesOf lossy fuel f bs = some (.ok (bs.flatMap fun b => bucketPairs lossy f (chain b))) := by
    intro bs hbs
    induction bs with
    | nil => rfl
    | cons b bs ih =>
      have hb := hbs b mem_cons_self
      rw [entriesOf, entriesLoop_eq (h.linked b hb) (h.page b hb) ((h.length_chain hb).trans hfuel),
        ih fun c hc => hbs c (mem_cons_of_mem _ hc)]
      rfl
  exact hall _ fun _ hb => hb

lemma of_pages (hpages : f'.pages = f.pages) (hnum : f.numPages ≤ f'.numPages) :
    Represents hash lossy f' chain m := by
  have hheader : f'.headerBuckets = f.headerBuckets := headerBuckets_congr (by rw [hpages])
  have hnext : f'.nextOf = f.nextOf := by
    funext q
    rw [nextOf, hpages, nextOf]
  have hpairs : allPairs lossy f' chain = allPairs lossy f chain := by
    rw [allPairs, hheader]
    refine flatMap_congr fun b _ => bucketPairs_congr fun q _ => ?_
    rw [hpages]
  refine ⟨?_, ?_, ?_, ?_, ?_, ?_, hpairs ▸ h.content⟩ <;> rw [hheader]
  · exact h.buckets
  · rw [hnext]
    exact h.linked
  · exact h.nodup
  · exact h.apart
  · exact fun b hb q hq => ⟨(h.inside b hb q hq).1, (h.inside b hb q hq).2.trans_le hnum⟩
  · rw [hpages]
    exact h.page

lemma update (hb : b ∈ List.range' 1 f.headerBuckets) {l' : List ℕ}
    (hlinked : Linked f'.nextOf b l') (hgrown : l' = chain b ∧ f'.numPages = f.numPages ∨
      l' = chain b ++ [f.numPages] ∧ f'.numPages = f.numPages + 1)
    (hothers : ∀ r, r ∉ l' → f'.pages r = f.pages r)
    (hpage : ∀ r ∈ l', PageOk hash f.headerBuckets b (f'.pages r)) :
    ∃ rest, m = ↑(bucketPairs lossy f (chain b)) + rest ∧
      Represents hash lossy f' (update chain b l') (↑(bucketPairs lossy f' l') + rest) := by
  obtain ⟨-, hpos⟩ := h.inside b hb b (h.linked b hb).mem_head
  have hmem : ∀ q ∈ l', q ∈ chain b ∨ q = f.numPages ∧ f'.numPages = f.numPages + 1 := by
    intro q hq
    rcases hgrown with ⟨rfl, -⟩ | ⟨rfl, hnum⟩
    · exact .inl hq
    · rcases mem_append.1 hq with hq | hq
      · exact .inl hq
      · exact .inr ⟨mem_singleton.1 hq, hnum⟩
  have hnum : f.numPages ≤ f'.numPages := by
    rcases hgrown with ⟨-, hnum⟩ | ⟨-, hnum⟩
    · exact hnum.ge
    · exact hnum ▸ Nat.le_succ _
  have hzero : 0 ∉ l' := by
    intro hq
    rcases hmem 0 hq with hq | ⟨hq, -⟩
    · exact absurd (h.inside b hb 0 hq).1 (lt_irrefl 0)
    · exact absurd (hq ▸ hpos) (Nat.not_lt_zero b)
  have hheader := headerBuckets_congr (hothers 0 hzero)
  -- the chains of the other buckets are as they were
  have hother : ∀ c ∈ range' 1 f.headerBuckets, c ≠ b → ∀ q ∈ chain c, q ∉ l' := by
    intro c hc hne q hq hq'
    rcases hmem q hq' with hq' | ⟨hq', -⟩
    · exact hne (h.apart c hc b hb q hq hq')
    · exact absurd (hq' ▸ (h.inside c hc q hq).2) (lt_irrefl _)
  have hkept : ∀ c ∈ range' 1 f.headerBuckets, c ≠ b → ∀ q ∈ chain c, f'.pages q = f.pages q :=
    fun c hc hne q hq => hothers q (hother c hc hne q hq)
  refine ⟨_, h.content_split hb, ⟨hheader ▸ h.buckets, ?_, ?_, ?_, ?_, ?_, ?_⟩⟩
  · rw [hheader]
    intro c hc
    by_cases hne : c = b
    · rw [hne, update_self]
      exact hlinked
    · rw [update_of_ne hne]
      exact (h.linked c hc).congr fun q hq => by rw [nextOf, hkept c hc hne q hq, nextOf]
  · rw [hheader]
    intro c hc
    by_cases hne : c = b
    · rw [hne, update_self]
      rcases hgrown with ⟨rfl, -⟩ | ⟨rfl, -⟩
      · exact h.nodup b hb
      · rw [← concat_eq_append]
        exact (h.nodup b hb).concat fun hq => absurd (h.inside b hb _ hq).2 (lt_irrefl _)
    · rw [update_of_ne hne]
      exact h.nodup c hc
  · rw [hheader]
    intro c hc d hd q hqc hqd
    rcases of_mem_update hqc with ⟨hcb, hqc⟩ | ⟨hcb, hqc⟩ <;>
      rcases of_mem_update hqd with ⟨hdb, hqd⟩ | ⟨hdb, hqd⟩
    · exact hcb.trans hdb.symm
    · exact absurd hqc (hother d hd hdb q hqd)
    · exact absurd hqd (hother c hc hcb q hqc)
    · exact h.apart c hc d hd q hqc hqd
  · rw [hheader]
    intro c hc q hq
    rcases of_mem_update hq with ⟨-, hq⟩ | ⟨-, hq⟩
    · rcases hmem q hq with hq | ⟨rfl, hnew⟩
      · exact ⟨(h.inside b hb q hq).1, (h.inside b hb q hq).2.trans_le hnum⟩
      · exact ⟨Nat.zero_lt_of_lt hpos, hnew ▸ Nat.lt_succ_self _⟩
    · exact ⟨(h.inside c hc q hq).1, (h.inside c hc q hq).2.trans_le hnum⟩
  · rw [hheader]
    intro c hc q hq
    rcases of_mem_update hq with ⟨hcb, hq⟩ | ⟨hne, hq⟩
    · exact hcb ▸ hpage q hq
    · rw [hkept c hc hne q hq]
      exact h.page c hc q hq
  · have hrest : ((range' 1 f.headerBuckets).erase b).flatMap
          (fun c => bucketPairs lossy f' (Function.update chain b l' c)) =
        ((range' 1 f.headerBuckets).erase b).flatMap fun c => bucketPairs lossy f (chain c) := by
      refine flatMap_congr fun c hc => ?_
      obtain ⟨hne, hc⟩ := (List.Nodup.mem_erase_iff nodup_range').1 hc
      rw [update_of_ne hne]
      exact bucketPairs_congr (hkept c hc hne)
    rw [allPairs, hheader, Multiset.coe_eq_coe.2 ((perm_cons_erase hb).flatMap_right _),
      flatMap_cons, update_self, hrest, Multiset.coe_add]

lemma inserts {key : StoredValue} {row : UInt64} {r : Except LightningError Unit} {l' : List ℕ}
    (hb : b ∈ range' 1 f.headerBuckets)
    (hins : Inserts hash lossy f.headerBuckets b key row f b (chain b) r f' l') :
    ∃ m', Represents hash lossy f' (Function.update chain b l') m' ∧
      (r = .ok () ∧ Storable key ∧ m' = (key, row) ::ₘ m ∨
        (∃ e, r = .error e ∧ (f.numPages < pageLimit → key.serializeValue = .error e)) ∧ m' = m) := by
  obtain ⟨rest, hm, hnew⟩ := h.update hb hins.linked
    (hins.grown.imp_right fun hnew => ⟨hnew.1, hnew.2.1⟩) hins.others hins.page
  refine ⟨_, hnew, ?_⟩
  rcases hins.added with ⟨hr, hkey, hperm⟩ | ⟨hr, heq⟩
  · refine .inl ⟨hr, hkey, ?_⟩
    rw [Multiset.coe_eq_coe.2 hperm, hm, ← Multiset.cons_coe, Multiset.cons_add]
  · exact .inr ⟨hr, by rw [heq, hm]⟩

lemma insertLoop_inserts (hfuel : f.numPages < fuel) (key : StoredValue) (row : UInt64)
    (hb : b = bucketOf hash f.headerBuckets key) :
    ∃ r f' l', insertLoop hash key row fuel b f = some (r, f') ∧
      Inserts hash lossy f.headerBuckets b key row f b (chain b) r f' l' :=
  have hmem := hb ▸ h.bucket_mem key
  HashIndex.insertLoop_inserts lossy row (h.linked _ hmem) (h.nodup _ hmem)
    (fun q hq => (h.inside _ hmem q hq).2) (h.page _ hmem) hb ((h.length_chain hmem).trans_lt hfuel)

/-- **The index after `insert`.** -/
lemma insert (hfuel : f.numPages < fuel) (key : StoredValue) (row : UInt64) :
    ∃ r f' chain' m', HashIndex.insert hash fuel f key row = some (r, f') ∧
      Represents hash lossy f' chain' m' ∧ f'.numPages ≤ f.numPages + 1 ∧
      (r = .ok () ∧ Storable key ∧ m' = (key, row) ::ₘ m ∨
        (∃ e, r = .error e ∧ (f.numPages < pageLimit → key.serializeValue = .error e)) ∧ m' = m) := by
  obtain ⟨r, f', l', hrun, hins⟩ := h.insertLoop_inserts hfuel key row rfl
  obtain ⟨m', hnew, hm'⟩ := h.inserts (h.bucket_mem key) hins
  refine ⟨r, f', _, m', ?_, hnew, ?_, hm'⟩
  · rw [HashIndex.insert, if_neg (ne_of_gt h.buckets)]
    exact hrun
  · rcases hins.grown with ⟨-, hnum⟩ | ⟨-, hnum, -⟩ <;> omega

/-- **The index after `delete`.** -/
lemma delete (hfuel : f.numPages ≤ fuel) (key : StoredValue) (row : UInt64) :
    ∃ f' chain', HashIndex.delete hash lossy fuel f key row = some (.ok (decide ((key, row) ∈ m)), f') ∧
      Represents hash lossy f' chain' (m.erase (key, row)) := by
  have hb := h.bucket_mem key
  have hstart : HashIndex.delete hash lossy fuel f key row =
      deleteLoop hash lossy f key row fuel (bucketOf hash f.headerBuckets key) := by
    rw [HashIndex.delete, if_neg (ne_of_gt h.buckets)]
  -- the pair can only be in the bucket of its key
  have hmem : (key, row) ∈ m ↔ (key, row) ∈ bucketPairs lossy f
      (chain (bucketOf hash f.headerBuckets key)) := by
    have hfilter : (key, row) ∈ m.filter (·.1 = key) ↔ (key, row) ∈ m := by simp
    rw [← hfilter, h.filter_content]
    simp
  rcases deleteLoop_eq (h.linked _ hb) (h.page _ hb) ((h.length_chain hb).trans hfuel) lossy key row with
    ⟨r, hr, i, hi, hpair, hrun⟩ | ⟨hrun, habsent⟩
  · obtain ⟨hok, hperm⟩ := (h.page _ hb r hr).remove hi hpair
    have hnext := nextOf_setPage (f := f) (q := r) (nextPage_tombstone (i := i) (computeHash hash key))
    generalize (f.pages r).tombstone i (computeHash hash key) = p' at *
    have hlinked : Linked (f.setPage r p').nextOf _ _ := hnext ▸ h.linked _ hb
    obtain ⟨rest, hm, hnew⟩ := h.update hb hlinked (.inl ⟨rfl, rfl⟩)
      (fun q hq => setPage_pages_of_ne (fun hqr : q = r => hq (hqr ▸ hr)) p')
      fun q hq => setPage_of (fun _ => hok) (h.page _ hb q hq)
    have hpairs := bucketPairs_setPage_perm hr (h.nodup _ hb) hperm
    have hin : (key, row) ∈ m := hmem.2 (hpairs.mem_iff.2 mem_cons_self)
    rw [hm, Multiset.coe_eq_coe.2 hpairs, ← Multiset.cons_coe, Multiset.cons_add] at hin ⊢
    rw [Multiset.erase_cons_head]
    exact ⟨_, _, by rw [hstart, hrun, decide_eq_true hin], hnew⟩
  · refine ⟨f, chain, ?_, ?_⟩
    · rw [hstart, hrun, decide_eq_false (fun hin => habsent (hmem.1 hin))]
    · rw [Multiset.erase_of_notMem fun hin => habsent (hmem.1 hin)]
      exact h

end Represents

/-! ## A new index -/

/-- A file of which page 0 alone has been written. -/
structure Blank (f : HashIndex) (n : ℕ) : Prop where
  header : f.pages 0 = headerPage n
  rest : ∀ q, q ≠ 0 → f.pages q = .zero

lemma addBuckets_blank {k : ℕ} (hf : f.Blank n) (hpos : 0 < f.numPages)
    (h : addBuckets k f = .ok f') : f'.Blank n ∧ f'.numPages = f.numPages + k := by
  induction k generalizing f with
  | zero =>
    cases h
    exact ⟨hf, rfl⟩
  | succ k ih =>
    rw [addBuckets] at h
    rw [← allocateOverflowPage] at h
    rcases lt_or_ge f.numPages pageLimit with hlimit | hlimit
    · rw [allocateOverflowPage_of_lt hlimit] at h
      have hblank : ({ f with numPages := f.numPages + 1 }.setPage f.numPages .zero).Blank n := by
        refine ⟨?_, fun q hq => setPage_of (P := (· = zero)) (fun _ => rfl) (hf.rest q hq)⟩
        rw [setPage_pages_of_ne (ne_of_lt hpos)]
        exact hf.header
      obtain ⟨hblank', hnum⟩ := ih hblank (Nat.succ_pos _) h
      refine ⟨hblank', hnum.trans ?_⟩
      exact add_right_comm f.numPages 1 k
    · rw [allocateOverflowPage_of_le hlimit] at h
      cases h

lemma create_represents (buckets : UInt64) (h : create buckets = .ok f) :
    Represents hash lossy f (fun b => [b]) 0 := by
  have hlt : max buckets.toNat 1 < 2 ^ 64 := max_lt buckets.toNat_lt (by decide)
  have hsplit : addBuckets (max buckets.toNat 1)
      (({ numBuckets := max buckets.toNat 1, numPages := 1, pages := fun _ => .zero } : HashIndex).setPage
        0 (headerPage (max buckets.toNat 1))) = .ok f := h
  have hstart : (({ numBuckets := max buckets.toNat 1, numPages := 1, pages := fun _ => .zero } :
      HashIndex).setPage 0 (headerPage (max buckets.toNat 1))).Blank (max buckets.toNat 1) :=
    ⟨setPage_pages_self _, fun q hq => setPage_pages_of_ne hq _⟩
  obtain ⟨hblank, hnum⟩ := addBuckets_blank hstart Nat.one_pos hsplit
  have hheader : f.headerBuckets = max buckets.toNat 1 := by
    rw [headerBuckets, hblank.header, headerPage, readU64_write_self (by decide),
      UInt64.toNat_ofNat_of_lt' hlt]
  have hnum' : f.numPages = 1 + f.headerBuckets := by rw [hheader]; exact hnum
  have hzero : ∀ b ∈ range' 1 f.headerBuckets, f.pages b = .zero := by
    intro b hb
    exact hblank.rest b (ne_of_gt (mem_range'_1.1 hb).1)
  refine ⟨?_, fun b hb => .last ?_, fun b _ => nodup_singleton b, ?_, fun b hb q hq => ?_,
    fun b hb q hq => ?_, ?_⟩
  · rw [hheader]
    exact lt_of_lt_of_le Nat.one_pos (le_max_right _ _)
  · rw [nextOf, hzero b hb, nextPage_zero]
  · intro b _ c _ q hqb hqc
    rw [← mem_singleton.1 hqb, mem_singleton.1 hqc]
  · rw [mem_singleton.1 hq, hnum']
    exact mem_range'_1.1 hb
  · rw [mem_singleton.1 hq, hzero b hb]
    exact pageOk_zero
  · have hnil : allPairs lossy f (fun b => [b]) = [] := by
      rw [allPairs, flatMap_eq_nil_iff]
      intro b hb
      rw [bucketPairs_cons, hzero b hb]
      rfl
    rw [hnil]
    rfl

/-! ## Runs -/

/-- A key that an index takes. -/
def Fits : StoredValue → Prop
  | .string s => (utf8 s).length ≤ maxValSize - 5
  | .null => False
  | .nested _ => False
  | _ => True

/-- The error for a key that an index does not take. -/
def refusal : StoredValue → LightningError
  | .string _ => .internal "String too long"
  | _ => .internal "Unsupported index value type"

lemma storable_iff_fits (key : StoredValue) : Storable key ↔ Fits key := by
  cases key with
  | string s =>
    rw [Storable, serializeValue]
    split
    next hlong => exact ⟨by rintro ⟨_, ⟨⟩⟩, fun hshort => absurd hshort (not_le.2 hlong)⟩
    next hshort => exact ⟨fun _ => not_lt.1 hshort, fun _ => ⟨_, rfl⟩⟩
  | null | nested => exact ⟨by rintro ⟨_, ⟨⟩⟩, False.elim⟩
  | _ => exact ⟨fun _ => trivial, fun _ => ⟨_, rfl⟩⟩

lemma eq_refusal {e : LightningError} (h : key.serializeValue = .error e) :
    ¬ Fits key ∧ e = refusal key := by
  refine ⟨fun hfits => ?_, ?_⟩
  · obtain ⟨buf, hbuf⟩ := (storable_iff_fits key).2 hfits
    rw [hbuf] at h
    cases h
  · cases key with
    | string s =>
      rw [serializeValue] at h
      split at h <;> cases h
      rfl
    | null | nested => cases h; rfl
    | _ => cases h

inductive Call where
  | insert (key : StoredValue) (row : UInt64)
  | delete (key : StoredValue) (row : UInt64)

/-- An index, and what has been inserted and not deleted since. -/
structure Kept where
  index : HashIndex
  stored : Multiset (StoredValue × UInt64)

/-- A call.  A pair counts as inserted when `insert` has returned without an error. -/
def Kept.step (hash : StoredValue → UInt64) (lossy : List UInt8 → String) (s : Kept) : Call → Option Kept
  | .insert key row =>
    (s.index.insert hash (s.index.numPages + 1) key row).map fun (r, f) =>
      match r with
      | .ok () => ⟨f, (key, row) ::ₘ s.stored⟩
      | .error _ => ⟨f, s.stored⟩
  | .delete key row =>
    (s.index.delete hash lossy (s.index.numPages + 1) key row).map fun (_, f) =>
      ⟨f, s.stored.erase (key, row)⟩

/-- The calls of one transaction on a new index. -/
def calls (hash : StoredValue → UInt64) (lossy : List UInt8 → String) : System Kept Call where
  init s := ∃ buckets, create buckets = .ok s.index ∧ s.stored = 0
  step s c := s.step hash lossy c

section Steps

variable {s : Kept}

lemma step_insert_ok (hrun : s.index.insert hash (s.index.numPages + 1) key row = some (.ok (), f')) :
    (calls hash lossy).step s (.insert key row) = some ⟨f', (key, row) ::ₘ s.stored⟩ := by
  simp [calls, Kept.step, hrun]

lemma step_insert_error {e : LightningError}
    (hrun : s.index.insert hash (s.index.numPages + 1) key row = some (.error e, f')) :
    (calls hash lossy).step s (.insert key row) = some ⟨f', s.stored⟩ := by
  simp [calls, Kept.step, hrun]

lemma step_delete {r : Except LightningError Bool}
    (hrun : s.index.delete hash lossy (s.index.numPages + 1) key row = some (r, f')) :
    (calls hash lossy).step s (.delete key row) = some ⟨f', s.stored.erase (key, row)⟩ := by
  simp [calls, Kept.step, hrun]

end Steps

lemma calls_represents {s : Kept} (hs : (calls hash lossy).Reachable s) :
    ∃ chain, Represents hash lossy s.index chain s.stored := by
  refine hs.invariant (I := fun s => ∃ chain, Represents hash lossy s.index chain s.stored) ?_ ?_
  · rintro s ⟨buckets, hcreate, hstored⟩
    exact ⟨_, hstored ▸ create_represents buckets hcreate⟩
  · rintro s c s' - ⟨chain, h⟩ - hstep
    cases c with
    | insert key row =>
      obtain ⟨r, f', chain', m', hrun, hnew, -, hr⟩ := h.insert (Nat.lt_succ_self _) key row
      rcases hr with ⟨rfl, -, hm⟩ | ⟨⟨e, rfl, -⟩, hm⟩
      · rw [step_insert_ok hrun, some.injEq] at hstep
        exact ⟨chain', hstep ▸ hm ▸ hnew⟩
      · rw [step_insert_error hrun, some.injEq] at hstep
        exact ⟨chain', hstep ▸ hm ▸ hnew⟩
    | delete key row =>
      obtain ⟨f', chain', hrun, hnew⟩ := h.delete (Nat.le_succ _) key row
      rw [step_delete hrun, some.injEq] at hstep
      exact ⟨chain', hstep ▸ hnew⟩

end HashIndex

open HashIndex in
/-- **A hash index is a multimap**, for every sequence of calls and every hash.  A lookup returns the rows
that have been inserted under the key and not deleted since, and `entries` returns all pairs.  An insertion
succeeds, as long as the file can grow, if the key is one that an index takes, and is refused otherwise,
with the error for its key; a deletion says whether the pair was there. -/
theorem hashIndex_refines_multimap (hash : StoredValue → UInt64) (lossy : List UInt8 → String) {s : Kept}
    (hs : (calls hash lossy).Reachable s) {fuel : ℕ} (hfuel : s.index.numPages < fuel) :
    (∀ key, ∃ rows, s.index.lookupMulti hash lossy fuel key none = some (.ok rows) ∧
      (rows : Multiset UInt64) = (s.stored.filter (·.1 = key)).map (·.2)) ∧
    (∃ all, s.index.entries lossy fuel = some (.ok all) ∧
      (all : Multiset (StoredValue × UInt64)) = s.stored) ∧
    (∀ key row, ∃ r f', s.index.insert hash fuel key row = some (r, f') ∧
      (HashIndex.Fits key → s.index.numPages < pageLimit → r = .ok ()) ∧
        (¬ HashIndex.Fits key → ∃ e, r = .error e ∧
          (s.index.numPages < pageLimit → e = HashIndex.refusal key))) ∧
    ∀ key row, ∃ f', s.index.delete hash lossy fuel key row =
      some (.ok (decide ((key, row) ∈ s.stored)), f') := by
  obtain ⟨chain, h⟩ := calls_represents hs
  refine ⟨h.lookupMulti_eq hfuel.le, ⟨_, h.entries_eq hfuel.le, h.content⟩, fun key row => ?_,
    fun key row => ?_⟩
  · obtain ⟨r, f', _, _, hrun, -, -, hr⟩ := h.insert hfuel key row
    refine ⟨r, f', hrun, fun hfits hlimit => ?_, fun hfits => ?_⟩
    · rcases hr with ⟨hok, -⟩ | ⟨⟨e, -, herror⟩, -⟩
      · exact hok
      · exact absurd hfits (eq_refusal (herror hlimit)).1
    · rcases hr with ⟨-, hstorable, -⟩ | ⟨⟨e, hr, herror⟩, -⟩
      · exact absurd ((storable_iff_fits key).1 hstorable) hfits
      · exact ⟨e, hr, fun hlimit => (eq_refusal (herror hlimit)).2⟩
  · obtain ⟨f', -, hrun, -⟩ := h.delete hfuel.le key row
    exact ⟨f', hrun⟩

namespace HashIndex

def emptyIndex : HashIndex where
  numBuckets := 1
  numPages := 2
  pages := Function.update (Function.update (fun _ => .zero) 0 (headerPage 1)) 1 .zero

variable {hash : StoredValue → UInt64} {lossy : List UInt8 → String} {f : HashIndex}

lemma reachable_emptyIndex : (calls hash lossy).Reachable ⟨emptyIndex, 0⟩ := .init ⟨1, rfl, rfl⟩

variable (hash lossy) in
/-- Pairs that an index takes can be inserted one after another. -/
lemma reachable_pairs (l : List (StoredValue × UInt64)) (hfits : ∀ x ∈ l, Fits x.1)
    (hlimit : l.length + 2 ≤ pageLimit) :
    ∃ f, (calls hash lossy).Reachable ⟨f, l⟩ ∧ f.numPages ≤ l.length + 2 := by
  induction l with
  | nil => exact ⟨emptyIndex, reachable_emptyIndex, le_rfl⟩
  | cons x l ih =>
    rw [forall_mem_cons] at hfits
    rw [length_cons] at hlimit ⊢
    obtain ⟨f, hf, hnum⟩ := ih hfits.2 (by omega)
    obtain ⟨chain, h⟩ := calls_represents hf
    obtain ⟨r, f', _, _, hrun, -, hgrown, hr⟩ := h.insert (Nat.lt_succ_self f.numPages) x.1 x.2
    change f'.numPages ≤ f.numPages + 1 at hgrown
    have hok : r = .ok () := by
      rcases hr with ⟨hok, -⟩ | ⟨⟨e, -, herror⟩, -⟩
      · exact hok
      · exact absurd hfits.1 (eq_refusal (herror (hnum.trans_lt (by omega)))).1
    exact ⟨f', .step hf trivial (step_insert_ok (hok ▸ hrun)), by omega⟩

lemma length_bucketPairs_le {n bucket : ℕ} {l : List ℕ}
    (h : ∀ q ∈ l, PageOk hash n bucket (f.pages q)) :
    (bucketPairs lossy f l).length ≤ maxEntriesPerPage * l.length := by
  induction l with
  | nil => exact Nat.zero_le _
  | cons q l ih =>
    rw [forall_mem_cons] at h
    have hpage : (pairs lossy (f.pages q)).length ≤ maxEntriesPerPage :=
      (length_filterMap_le _ _).trans ((length_rawEntries _).trans_le h.1.count)
    rw [bucketPairs_cons, length_append, length_cons, Nat.mul_succ, add_comm]
    exact Nat.add_le_add (ih h.2) hpage

/-- The pages behind the first have room for what is stored. -/
lemma Represents.card_le {chain : ℕ → List ℕ} {m : Multiset (StoredValue × UInt64)}
    (h : Represents hash lossy f chain m) : m.card ≤ maxEntriesPerPage * (f.numPages - 1) := by
  -- the chains are disjoint lists of such pages
  have hnodup : ((range' 1 f.headerBuckets).flatMap chain).Nodup := by
    refine nodup_flatMap.2 ⟨h.nodup, ?_⟩
    refine (nodup_range' (s := 1) (n := f.headerBuckets)).imp_of_mem ?_
    intro b c hb hc hne q hqb hqc
    exact hne (h.apart b hb c hc q hqb hqc)
  have hsub : (range' 1 f.headerBuckets).flatMap chain ⊆ range' 1 (f.numPages - 1) := by
    intro q hq
    obtain ⟨b, hb, hq⟩ := mem_flatMap.1 hq
    have hinside := h.inside b hb q hq
    exact mem_range'_1.2 ⟨hinside.1, by omega⟩
  have hlength := (hnodup.subperm hsub).length_le
  rw [length_range', length_flatMap] at hlength
  have hpairs : (allPairs lossy f chain).length ≤
      maxEntriesPerPage * ((range' 1 f.headerBuckets).map fun b => (chain b).length).sum := by
    rw [allPairs, length_flatMap, ← List.sum_map_mul_left]
    exact List.sum_le_sum fun b hb => length_bucketPairs_le (h.page b hb)
  rw [← h.content]
  exact hpairs.trans (Nat.mul_le_mul_left _ hlength)

/-- Seventeen pairs, two more than a page has slots. -/
def seventeen : List (StoredValue × UInt64) :=
  (List.range 17).map fun i => (.number (UInt64.ofNat i), UInt64.ofNat i)

end HashIndex

open HashIndex in
/-- With hashes that are all the same, seventeen pairs take a second page of their bucket.  One of
them is deleted: it is not found any more, and the others are. -/
theorem hashIndex_refines_multimap_overflow : ∃ f : HashIndex, ∃ gone rows,
    (calls (fun _ => 0) fun _ => "").Reachable ⟨f, Multiset.erase seventeen (.number 3, 3)⟩ ∧
      emptyIndex.numPages < f.numPages ∧
      f.lookupMulti (fun _ => 0) (fun _ => "") (f.numPages + 1) (.number 3) none = some (.ok gone) ∧
      (gone : Multiset UInt64) = 0 ∧
      f.lookupMulti (fun _ => 0) (fun _ => "") (f.numPages + 1) (.number 16) none = some (.ok rows) ∧
      (rows : Multiset UInt64) = {16} := by
  obtain ⟨f, hf, -⟩ := reachable_pairs (fun _ => 0) (fun _ => "") seventeen
    (by simp [seventeen, HashIndex.Fits]) (by decide)
  obtain ⟨f', hrun⟩ := (hashIndex_refines_multimap (fun _ => 0) (fun _ => "") hf
    (Nat.lt_succ_self _)).2.2.2 (.number 3) 3
  have hs : (calls (fun _ => 0) fun _ => "").Reachable
      ⟨f', Multiset.erase seventeen (.number 3, 3)⟩ := .step hf trivial (step_delete hrun)
  have hfinds := (hashIndex_refines_multimap (fun _ => 0) (fun _ => "") hs (Nat.lt_succ_self _)).1
  obtain ⟨gone, hgone, hnone⟩ := hfinds (.number 3)
  obtain ⟨rows, hlookup, hrows⟩ := hfinds (.number 16)
  refine ⟨f', gone, rows, hs, ?_, hgone, ?_, hlookup, ?_⟩
  · -- sixteen pairs are left, and a page takes fifteen
    obtain ⟨chain, h⟩ := calls_represents hs
    have hleft : (Multiset.erase ↑seventeen (StoredValue.number 3, (3 : UInt64))).card = 16 := by decide
    have hcard : 16 ≤ maxEntriesPerPage * (f'.numPages - 1) := hleft ▸ h.card_le
    have hslots : maxEntriesPerPage = 15 := rfl
    rw [hslots] at hcard
    change 2 < f'.numPages
    omega
  · rw [hnone]
    change (Multiset.filter (fun x : StoredValue × UInt64 => x.1 = .number 3)
      (Multiset.erase seventeen (.number 3, 3))).map (·.2) = 0
    decide
  · rw [hrows]
    change (Multiset.filter (fun x : StoredValue × UInt64 => x.1 = .number 16)
      (Multiset.erase seventeen (.number 3, 3))).map (·.2) = {16}
    decide

open HashIndex in
/-- **A null is not stored**: inserting it is an error, and it is not found afterwards. -/
theorem hashIndex_refuses_null : ∃ s s' : Kept,
    (calls (fun _ => 0) fun _ => "").Reachable s ∧
      s.index.insert (fun _ => 0) (s.index.numPages + 1) .null 7 =
        some (.error (.internal "Unsupported index value type"), s'.index) ∧
      (calls (fun _ => 0) fun _ => "").step s (.insert .null 7) = some s' ∧
      s'.index.lookupMulti (fun _ => 0) (fun _ => "") (s'.index.numPages + 1) .null none =
        some (.ok []) := by
  have h0 : Represents (fun _ => 0) (fun _ => "") emptyIndex (fun b => [b]) 0 :=
    create_represents 1 rfl
  obtain ⟨r, f, chain, m, hrun, hnew, -, hr⟩ := h0.insert (Nat.lt_succ_self _) .null 7
  rcases hr with ⟨-, hstorable, -⟩ | ⟨⟨e, rfl, herror⟩, rfl⟩
  · exact absurd ((storable_iff_fits _).1 hstorable) id
  · obtain ⟨rows, hlookup, hrows⟩ := hnew.lookupMulti_eq (Nat.le_succ _) .null
    have hempty : rows = [] := by simpa using hrows
    obtain rfl : e = _ := (eq_refusal (herror (by decide))).2
    refine ⟨⟨emptyIndex, 0⟩, ⟨f, 0⟩, reachable_emptyIndex, hrun,
      step_insert_error hrun, by rw [hlookup, hempty]⟩

end LightningDB
