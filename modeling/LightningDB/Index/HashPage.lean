import LightningDB.Framework.ByteCodec
import LightningDB.Storage.Page
import LightningDB.Storage.Value

/-!
# Pages of a hash index

A page of a bucket begins with the number of the next page of its chain and the number of its entries.
An entry has 272 bytes: the hash of the key, whose highest bit marks a deleted entry, the key in 256
bytes, and the row.  Here are the two directions of the format of keys, `serialize_value` and
`deserialize_value`, and what the writes of the index make of the entries of a page: an entry is added
(`writeEntryToPage_eq`), one is marked as deleted (`rawEntries_tombstone`), or the page gets a successor
(`rawEntries_setNextPage`).
-/

namespace LightningDB

open Framework List StoredValue

/-- `MAX_VAL_SIZE`. -/
def maxValSize : ℕ := 256

/-- `ENTRY_SIZE`. -/
def entrySize : ℕ := 8 + maxValSize + 8

/-- `MAX_ENTRIES_PER_PAGE`. -/
def maxEntriesPerPage : ℕ := (pageSize - 16) / entrySize

/-- `DELETED_BIT`. -/
def deletedBit : UInt64 := (1 : UInt64) <<< (63 : UInt64)

namespace StoredValue

/-! ## Keys -/

/-- A buffer of 256 bytes that begins with the given ones. -/
def keyBuffer (bytes : List UInt8) : List UInt8 := bytes ++ List.replicate (maxValSize - bytes.length) 0

/-- `serialize_value`, into a zeroed buffer. -/
def serializeValue : StoredValue → Except LightningError (List UInt8)
  | .number bits => .ok (keyBuffer (0 :: leBytes 8 bits.toNat))
  | .string s =>
    if (utf8 s).length > maxValSize - 5 then .error (.internal "String too long")
    else .ok (keyBuffer (1 :: (leBytes 4 (utf8 s).length ++ utf8 s)))
  | .boolean b => .ok (keyBuffer [2, if b then 1 else 0])
  | .node id => .ok (keyBuffer (3 :: leBytes 8 id.toNat))
  | .relationship id => .ok (keyBuffer (4 :: leBytes 8 id.toNat))
  | .date bits => .ok (keyBuffer (5 :: leBytes 4 bits.toNat))
  | .timestamp bits => .ok (keyBuffer (6 :: leBytes 8 bits.toNat))
  | .null => .error (.internal "Unsupported index value type")
  | .nested _ => .error (.internal "Unsupported index value type")

variable (lossy : List UInt8 → String)

/-- `String::from_utf8_lossy`, with what it makes of invalid bytes. -/
def fromUtf8Lossy (bytes : List UInt8) : String :=
  (String.fromUTF8? ⟨bytes.toArray⟩).getD (lossy bytes)

/-- The rest of `deserialize_value`, once the tag has been read. -/
def deserializeTagged (tag : ℕ) (buf : List UInt8) : Except LightningError StoredValue :=
  match tag with
  | 0 => .ok (.number (UInt64.ofNat (leNat ((buf.drop 1).take 8))))
  | 1 =>
    let len := leNat ((buf.drop 1).take 4)
    if 5 + len > buf.length then
      let size := buf.length
      .error (.internal s!"String data length {len} exceeds buffer size {size} in deserialize_value")
    else .ok (.string (fromUtf8Lossy lossy ((buf.drop 5).take len)))
  | 2 => .ok (.boolean (buf[1]?.getD 0 != 0))
  | 3 => .ok (.node (UInt64.ofNat (leNat ((buf.drop 1).take 8))))
  | 4 => .ok (.relationship (UInt64.ofNat (leNat ((buf.drop 1).take 8))))
  | 5 => .ok (.date (UInt32.ofNat (leNat ((buf.drop 1).take 4))))
  | 6 => .ok (.timestamp (UInt64.ofNat (leNat ((buf.drop 1).take 8))))
  | t => .error (.internal s!"Unsupported index value type tag {t}")

/-- `deserialize_value`, of a buffer of 256 bytes. -/
def deserializeValue : List UInt8 → Except LightningError StoredValue
  | [] => .error (.internal "empty buffer in deserialize_value")
  | tag :: rest => deserializeTagged lossy tag.toNat (tag :: rest)

variable {lossy : List UInt8 → String}

lemma length_keyBuffer {bytes : List UInt8} (h : bytes.length ≤ maxValSize) :
    (keyBuffer bytes).length = maxValSize := by
  rw [keyBuffer, length_append, length_replicate]
  omega

lemma fromUtf8Lossy_utf8 (s : String) : fromUtf8Lossy lossy (utf8 s) = s := by
  have hbytes : (⟨(utf8 s).toArray⟩ : ByteArray) = s.toUTF8 := by simp [utf8]
  have hvalid : s.toUTF8.IsValidUTF8 := s.isValidUTF8
  rw [fromUtf8Lossy, hbytes, String.fromUTF8?, dif_pos hvalid]
  rfl

lemma ofNat_leNat_leBytes (x : UInt64) : UInt64.ofNat (leNat (leBytes 8 x.toNat)) = x := by
  rw [leNat_leBytes_of_lt (x.toNat_lt), UInt64.ofNat_toNat]

lemma ofNat_leNat_leBytes_four (x : UInt32) : UInt32.ofNat (leNat (leBytes 4 x.toNat)) = x := by
  rw [leNat_leBytes_of_lt (x.toNat_lt), UInt32.ofNat_toNat]

lemma take_keyBuffer (tag : UInt8) (body : List UInt8) :
    ((keyBuffer (tag :: body)).drop 1).take body.length = body := by
  rw [keyBuffer, cons_append, drop_one, tail_cons, take_left]

variable {v : StoredValue} {buf : List UInt8}

lemma length_serializeValue (h : v.serializeValue = .ok buf) : buf.length = maxValSize := by
  cases v with
  | string s =>
    rw [serializeValue] at h
    split at h
    · cases h
    next hlen =>
      cases h
      refine length_keyBuffer ?_
      rw [length_cons, length_append, length_leBytes]
      unfold maxValSize at hlen ⊢
      omega
  | null | nested => cases h
  | number | boolean | node | relationship | date | timestamp =>
    cases h; exact length_keyBuffer (by simp [maxValSize])

/-- A key that is stored is read back. -/
theorem deserialize_serialize (h : v.serializeValue = .ok buf) :
    deserializeValue lossy buf = .ok v := by
  have height : ∀ (tag : UInt8) (x : UInt64),
      UInt64.ofNat (leNat (((keyBuffer (tag :: leBytes 8 x.toNat)).drop 1).take 8)) = x := by
    intro tag x
    have htake := take_keyBuffer tag (leBytes 8 x.toNat)
    rw [length_leBytes] at htake
    rw [htake, ofNat_leNat_leBytes]
  cases v with
  | string s =>
    have hlength := length_serializeValue h
    rw [serializeValue] at h
    split at h
    · cases h
    next hlen =>
      cases h
      have hlen' : ((keyBuffer (1 :: (leBytes 4 (utf8 s).length ++ utf8 s))).drop 1).take 4 =
          leBytes 4 (utf8 s).length := by
        rw [keyBuffer, cons_append, drop_one, tail_cons, append_assoc,
          take_left' (length_leBytes _ _)]
      have hbody : ((keyBuffer (1 :: (leBytes 4 (utf8 s).length ++ utf8 s))).drop 5).take
          (utf8 s).length = utf8 s := by
        rw [keyBuffer, cons_append, drop_succ_cons, append_assoc,
          drop_left' (length_leBytes _ _), take_left]
      have hsmall : (utf8 s).length < 256 ^ 4 := by
        unfold maxValSize at hlen
        omega
      change deserializeTagged lossy 1 (keyBuffer (1 :: (leBytes 4 (utf8 s).length ++ utf8 s))) = _
      rw [deserializeTagged, hlen', leNat_leBytes_of_lt hsmall, if_neg ?_, hbody, fromUtf8Lossy_utf8]
      rw [hlength]
      unfold maxValSize at hlen ⊢
      omega
  | null | nested => cases h
  | number bits => cases h; exact congrArg (fun x => Except.ok (number x)) (height _ _)
  | boolean b => cases h; cases b <;> rfl
  | node id => cases h; exact congrArg (fun x => Except.ok (node x)) (height _ _)
  | relationship id =>
    cases h
    exact congrArg (fun x => Except.ok (relationship x)) (height _ _)
  | date bits =>
    cases h
    have htake := take_keyBuffer 5 (leBytes 4 bits.toNat)
    rw [length_leBytes] at htake
    have hbits : UInt32.ofNat (leNat (((keyBuffer (5 :: leBytes 4 bits.toNat)).drop 1).take 4)) =
        bits := by
      rw [htake, ofNat_leNat_leBytes_four]
    exact congrArg (fun x => Except.ok (date x)) hbits
  | timestamp bits =>
    cases h
    exact congrArg (fun x => Except.ok (timestamp x)) (height _ _)

end StoredValue

/-! ## Entries -/

structure RawEntry where
  hash : UInt64
  key : List UInt8
  row : UInt64

/-- An entry that has not been marked as deleted. -/
def RawEntry.isLive (e : RawEntry) : Bool := e.hash &&& deletedBit == 0

namespace Page

variable (p : Page)

/-- `read_u64_at`, inside the page. -/
def readU64 (off : ℕ) : UInt64 := UInt64.ofNat (leNat (p.slice off 8))

def nextPage : ℕ := (p.readU64 0).toNat

/-- The number of entries, deleted ones included. -/
def numEntries : ℕ := (p.readU64 8).toNat

def entryOffset (i : ℕ) : ℕ := 16 + i * entrySize

def rawEntry (i : ℕ) : RawEntry where
  hash := p.readU64 (entryOffset i)
  key := p.slice (entryOffset i + 8) maxValSize
  row := p.readU64 (entryOffset i + 8 + maxValSize)

/-- The entry in a slot, as the loops over a page read it. -/
def entryAt (i : ℕ) : Except LightningError RawEntry :=
  if entryOffset i + 8 ≤ pageSize then .ok (p.rawEntry i)
  else .error (.internal "buffer too short for u64")

def rawEntries : List RawEntry := (List.range p.numEntries).map p.rawEntry

/-- `write_entry_to_page`. -/
def writeEntryToPage (numEntries : ℕ) (hash : UInt64) (key : List UInt8) (row : UInt64) :
    Except LightningError Unit × Page :=
  let offset := entryOffset numEntries
  if offset + entrySize > pageSize then
    (.error (.internal s!"Hash index page full: entry at offset {offset} exceeds page size"), p)
  else
    let p := p.write offset (leBytes 8 hash.toNat)
    if key.length ≠ maxValSize then
      (.error (.internal "key_bytes length must match MAX_VAL_SIZE"), p)
    else
      (.ok (), ((p.write (offset + 8) key).write (offset + 8 + maxValSize)
        (leBytes 8 row.toNat)).write 8 (leBytes 8 (numEntries + 1)))

def setNextPage (next : ℕ) : Page := p.write 0 (leBytes 8 next)

/-- Mark the entry in a slot as deleted. -/
def tombstone (i : ℕ) (hash : UInt64) : Page :=
  p.write (entryOffset i) (leBytes 8 (hash ||| deletedBit).toNat)

variable {p : Page} {i : ℕ}

lemma maxEntriesPerPage_eq : maxEntriesPerPage = 15 := by decide

lemma entryAt_of_lt (h : i < maxEntriesPerPage) : p.entryAt i = .ok (p.rawEntry i) := by
  rw [entryAt, if_pos]
  rw [maxEntriesPerPage_eq] at h
  unfold entryOffset entrySize maxValSize pageSize
  omega

variable {off : ℕ} {data : List UInt8}

lemma readU64_write_self (h : off + 8 ≤ pageSize) (n : ℕ) :
    (p.write off (leBytes 8 n)).readU64 off = UInt64.ofNat n := by
  have hslice := @slice_write_self off (leBytes 8 n) p (by rwa [length_leBytes])
  rw [length_leBytes] at hslice
  rw [readU64, hslice, leNat_leBytes]
  exact UInt64.ofNat_mod_size

lemma readU64_write_of_apart {o : ℕ}
    (h : o + 8 ≤ off ∨ off + data.length ≤ o) : (p.write off data).readU64 o = p.readU64 o := by
  rw [readU64, slice_write_of_apart p h, readU64]

lemma rawEntry_write_of_apart
    (h : off + data.length ≤ entryOffset i ∨ entryOffset i + entrySize ≤ off) :
    (p.write off data).rawEntry i = p.rawEntry i := by
  unfold entrySize at h
  rw [rawEntry, rawEntry, readU64_write_of_apart (by omega), readU64_write_of_apart (by omega),
    slice_write_of_apart p (by omega)]

lemma entryOffset_lt {j : ℕ} (h : i < j) : entryOffset i + entrySize ≤ entryOffset j := by
  unfold entryOffset entrySize maxValSize
  omega

/-- A write apart from the header and the slots in use leaves all entries. -/
lemma rawEntries_write_of_apart (hheader : off + data.length ≤ 8 ∨ 16 ≤ off)
    (hslots : ∀ i < p.numEntries, off + data.length ≤ entryOffset i ∨ entryOffset i + entrySize ≤ off) :
    (p.write off data).rawEntries = p.rawEntries := by
  have hnum : (p.write off data).numEntries = p.numEntries := by
    rw [numEntries, readU64_write_of_apart (by omega), numEntries]
  rw [rawEntries, hnum]
  refine map_congr_left fun i hi => rawEntry_write_of_apart (hslots i (mem_range.1 hi))

/-- **A page gets a successor.** -/
lemma rawEntries_setNextPage (next : ℕ) : (p.setNextPage next).rawEntries = p.rawEntries := by
  refine rawEntries_write_of_apart (.inl (by rw [length_leBytes])) fun i _ => .inl ?_
  rw [length_leBytes]
  unfold entryOffset
  omega

lemma nextPage_setNextPage {next : ℕ} (h : next < 2 ^ 64) : (p.setNextPage next).nextPage = next := by
  rw [nextPage, setNextPage, readU64_write_self (by decide), UInt64.toNat_ofNat_of_lt' h]

/-- **An entry is added.** -/
lemma writeEntryToPage_eq (h : p.numEntries < maxEntriesPerPage) {key : List UInt8}
    (hkey : key.length = maxValSize) (hash row : UInt64) :
    ∃ p', p.writeEntryToPage p.numEntries hash key row = (.ok (), p') ∧
      p'.rawEntries = p.rawEntries ++ [⟨hash, key, row⟩] ∧ p'.nextPage = p.nextPage := by
  rw [maxEntriesPerPage_eq] at h
  have hoffset : entryOffset p.numEntries + entrySize ≤ pageSize := by
    unfold entryOffset entrySize maxValSize pageSize
    omega
  have hfirst : 16 ≤ entryOffset p.numEntries := by
    unfold entryOffset
    omega
  have hsize : entrySize = 8 + maxValSize + 8 := rfl
  rw [writeEntryToPage, if_neg (by omega), if_neg (by rwa [not_not])]
  refine ⟨_, rfl, ?_, ?_⟩
  · -- the header counts one more entry, the others are where they were
    have hnum : ∀ q : Page, (q.write 8 (leBytes 8 (p.numEntries + 1))).numEntries =
        p.numEntries + 1 := fun q => by
      have hlt : p.numEntries + 1 < 2 ^ 64 := by omega
      rw [numEntries, readU64_write_self (by decide), UInt64.toNat_ofNat_of_lt' hlt]
    rw [rawEntries, hnum, range_succ, map_append, map_singleton]
    congr 1
    · refine map_congr_left fun i hi => ?_
      have hi' := entryOffset_lt (mem_range.1 hi)
      have hi₀ : 16 ≤ entryOffset i := by
        unfold entryOffset
        omega
      rw [rawEntry_write_of_apart (by rw [length_leBytes]; omega),
        rawEntry_write_of_apart (by rw [length_leBytes]; omega),
        rawEntry_write_of_apart (by rw [hkey]; omega),
        rawEntry_write_of_apart (by rw [length_leBytes]; omega)]
    · rw [rawEntry_write_of_apart (by rw [length_leBytes]; omega), rawEntry,
        readU64_write_of_apart (by omega), readU64_write_of_apart (by omega),
        readU64_write_self (by omega), readU64_write_self (by omega), UInt64.ofNat_toNat,
        UInt64.ofNat_toNat, slice_write_of_apart _ (by omega), ← hkey,
        slice_write_self _ (by omega)]
  · rw [nextPage, readU64_write_of_apart (by omega), readU64_write_of_apart (by omega),
      readU64_write_of_apart (by omega), readU64_write_of_apart (by omega), nextPage]

/-- **An entry is marked as deleted.** -/
lemma rawEntries_tombstone (hi : i < p.numEntries) (h : p.numEntries ≤ maxEntriesPerPage)
    (hash : UInt64) : (p.tombstone i hash).rawEntries =
      p.rawEntries.modify i (fun e => { e with hash := hash ||| deletedBit }) := by
  rw [maxEntriesPerPage_eq] at h
  have hfirst : 16 ≤ entryOffset i := by
    unfold entryOffset
    omega
  have hsize : entrySize = 8 + maxValSize + 8 := rfl
  have hinside : entryOffset i + 8 ≤ pageSize := by
    unfold entryOffset entrySize maxValSize pageSize
    omega
  have hnum : (p.tombstone i hash).numEntries = p.numEntries := by
    rw [numEntries, tombstone, readU64_write_of_apart (by omega), numEntries]
  refine ext_getElem? fun j => ?_
  rw [rawEntries, hnum, rawEntries, getElem?_modify, getElem?_map, getElem?_map]
  cases hj : (range p.numEntries)[j]? with
  | none => simp
  | some k =>
    obtain ⟨-, rfl⟩ := List.getElem?_eq_some_iff.1 hj
    rw [getElem_range, Option.map_some]
    congr 1
    split
    next hij =>
      rw [← hij, rawEntry, tombstone, readU64_write_self hinside, UInt64.ofNat_toNat,
        readU64_write_of_apart (by rw [length_leBytes]; omega),
        slice_write_of_apart p (by rw [length_leBytes]; omega)]
      rfl
    next hij =>
      refine rawEntry_write_of_apart ?_
      rw [length_leBytes]
      rcases Nat.lt_or_gt_of_ne hij with hlt | hlt
      · have := entryOffset_lt hlt
        omega
      · have := entryOffset_lt hlt
        omega

lemma nextPage_tombstone (hash : UInt64) : (p.tombstone i hash).nextPage = p.nextPage := by
  rw [nextPage, tombstone, readU64_write_of_apart (.inl _), nextPage]
  unfold entryOffset
  omega

lemma length_rawEntries (p : Page) : p.rawEntries.length = p.numEntries := by
  rw [rawEntries, length_map, length_range]

lemma rawEntries_zero : Page.zero.rawEntries = [] := by
  rfl

lemma nextPage_zero : Page.zero.nextPage = 0 := by
  rfl

end Page

end LightningDB
