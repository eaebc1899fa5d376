import LightningDB.Wal.Record

/-!
# The database header

`DatabaseHeader`: the counters and the watermark that a restart begins from, in a file with a checksum at
its end.  A file that fails the check is read as a header of version 1, which has none.  bincode is a
parameter, with what is used of it.
-/

namespace LightningDB.Header

open Framework List

/-- `DatabaseHeader`. -/
structure DatabaseHeader where
  magic : List UInt8
  version : UInt32
  lastCheckpointTx : UInt64
  nextTxId : UInt64
  currentTs : UInt64
  lastCheckpointTs : UInt64
deriving DecidableEq

/-- `DatabaseHeaderV1`. -/
structure DatabaseHeaderV1 where
  magic : List UInt8
  version : UInt32
  lastCheckpointTs : UInt64

/-- The integer of `w` bytes at an offset. -/
def intAt (w : ℕ) (buf : List UInt8) (i : ℕ) : ℕ := leNat ((buf.drop i).take w)

/-- `bincode::serialize` and `bincode::deserialize`.  Integers have a fixed width and are little-endian, and
what follows is ignored. -/
structure Bincode where
  serialize : DatabaseHeader → List UInt8
  deserialize : List UInt8 → Option DatabaseHeader
  deserializeV1 : List UInt8 → Option DatabaseHeaderV1
  serialize_ne_nil : ∀ h, serialize h ≠ []
  deserialize_serialize : ∀ h : DatabaseHeader, h.magic.length = 8 → deserialize (serialize h) = some h
  deserializeV1_eq : ∀ buf, deserializeV1 buf = if 20 ≤ buf.length then
    some ⟨buf.take 8, .ofNat (intAt 4 buf 8), .ofNat (intAt 8 buf 12)⟩ else none

/-- The errors of `load`. -/
inductive HeaderError where
  | invalidMagic (got : List UInt8)
  | newerVersion (version : UInt32)
  | versionZero
  | corrupt
deriving DecidableEq

namespace DatabaseHeader

/-- `MAGIC`: `LIGHTNIN`. -/
def MAGIC : List UInt8 := [76, 73, 71, 72, 84, 78, 73, 78]

/-- `DatabaseHeader::new`. -/
def new : DatabaseHeader := ⟨MAGIC, 2, 0, 1, 1, 0⟩

/-- `validate`. -/
def validate (h : DatabaseHeader) : Except HeaderError DatabaseHeader :=
  if h.magic ≠ MAGIC then .error (.invalidMagic h.magic)
  else if 2 < h.version then .error (.newerVersion h.version)
  else if h.version = 0 then .error .versionZero
  else .ok h

/-- The checksum at the end of the file is that of the bytes before it. -/
def CrcMatches (crc : Checksum) (buf : List UInt8) : Prop :=
  4 < buf.length ∧ (crc (buf.take (buf.length - 4))).toNat = leNat (buf.drop (buf.length - 4))

instance (crc : Checksum) (buf : List UInt8) : Decidable (CrcMatches crc buf) :=
  inferInstanceAs (Decidable (_ ∧ _))

variable (bincode : Bincode) (crc : Checksum)

/-- The V1 fallback of `load`. -/
def migrate (buf : List UInt8) : Except HeaderError DatabaseHeader :=
  match bincode.deserializeV1 buf with
  | some v1 =>
    if v1.magic = MAGIC then .ok { new with lastCheckpointTs := v1.lastCheckpointTs } else .error .corrupt
  | none => .error .corrupt

/-- `load`. -/
def load (buf : List UInt8) : Except HeaderError DatabaseHeader :=
  if CrcMatches crc buf then
    match bincode.deserialize (buf.take (buf.length - 4)) with
    | some header => header.validate
    | none => migrate bincode buf
  else migrate bincode buf

/-- The bytes that `save` writes. -/
def save (h : DatabaseHeader) : List UInt8 :=
  bincode.serialize h ++ leBytes 4 (crc (bincode.serialize h)).toNat

def counters (h : DatabaseHeader) : UInt64 × UInt64 × UInt64 :=
  (h.nextTxId, h.currentTs, h.lastCheckpointTx)

lemma load_save {h : DatabaseHeader} (hmagic : h.magic = MAGIC) (hversion : h.version = 2) :
    load bincode crc (h.save bincode crc) = .ok h := by
  have hmatches : CrcMatches crc (h.save bincode crc) := by
    have hpos := length_pos_of_ne_nil (bincode.serialize_ne_nil h)
    simp [CrcMatches, save, leNat_leBytes, hpos]
  have hread := bincode.deserialize_serialize h (by rw [hmagic]; rfl)
  rw [load, if_pos hmatches]
  simp [save, hread, validate, hmagic, hversion]

end DatabaseHeader

open DatabaseHeader

/-- **A header that fails its checksum.**  What is loaded has the counters that were saved, or the file
does not begin as one of version 1 does. -/
theorem damaged_header_iff (bincode : Bincode) (crc : Checksum)
    (lastCheckpointTx nextTxId currentTs lastCheckpointTs : UInt64) :
    let saved : DatabaseHeader := ⟨MAGIC, 2, lastCheckpointTx, nextTxId, currentTs, lastCheckpointTs⟩
    load bincode crc (saved.save bincode crc) = .ok saved ∧ ∀ buf, ¬ CrcMatches crc buf →
      ((∀ h, load bincode crc buf = .ok h → h.counters = saved.counters) ↔
        buf.length < 20 ∨ buf.take 8 ≠ MAGIC ∨ saved.counters = new.counters) := by
  refine ⟨load_save bincode crc rfl rfl, fun buf hdamaged => ?_⟩
  rw [load, if_neg hdamaged, migrate, bincode.deserializeV1_eq]
  by_cases hlength : 20 ≤ buf.length
  · by_cases hmagic : buf.take 8 = MAGIC
    · simp [hlength, hmagic, counters, eq_comm]
    · simp [hlength, hmagic]
  · simp [hlength, not_le.1 hlength]

/-! ## A flipped bit -/

/-- The encoding. -/
def serialize (h : DatabaseHeader) : List UInt8 :=
  h.magic ++ (leBytes 4 h.version.toNat ++ (leBytes 8 h.lastCheckpointTx.toNat ++
    (leBytes 8 h.nextTxId.toNat ++ (leBytes 8 h.currentTs.toNat ++ leBytes 8 h.lastCheckpointTs.toNat))))

/-- bincode, written out. -/
def bincode : Bincode where
  serialize := serialize
  deserialize buf := if 44 ≤ buf.length then
      some ⟨buf.take 8, .ofNat (intAt 4 buf 8), .ofNat (intAt 8 buf 12), .ofNat (intAt 8 buf 20),
        .ofNat (intAt 8 buf 28), .ofNat (intAt 8 buf 36)⟩
    else none
  deserializeV1 buf := if 20 ≤ buf.length then
      some ⟨buf.take 8, .ofNat (intAt 4 buf 8), .ofNat (intAt 8 buf 12)⟩
    else none
  serialize_ne_nil h := by simp [serialize, leBytes]
  deserialize_serialize h hlen := by
    simp [serialize, intAt, drop_append, drop_eq_nil_of_le, take_of_length_le, leNat_leBytes, hlen]
  deserializeV1_eq _ := rfl

def crc32 : Checksum := fun bytes =>
  ~~~bytes.foldl (fun c b => (range 8).foldl
    (fun c _ => if c &&& 1 = 1 then c >>> 1 ^^^ 0xEDB88320 else c >>> 1) (c ^^^ b.toUInt32)) 0xFFFFFFFF

/-- A bit of the commit clock is flipped, and the ids start from 1 again. -/
theorem damaged_header_loads : let saved : DatabaseHeader := ⟨MAGIC, 2, 9, 10, 12, 11⟩
    ¬ CrcMatches crc32 ((saved.save bincode crc32).set 28 13) ∧
      load bincode crc32 ((saved.save bincode crc32).set 28 13) = .ok { new with lastCheckpointTs := 9 } := by
  decide +kernel

end LightningDB.Header
