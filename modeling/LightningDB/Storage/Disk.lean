import LightningDB.Storage.Page
import LightningDB.Transaction.Manager
import Mathlib.Logic.Function.Basic

/-!
# Data files

A data file is a sequence of pages, a page count kept in memory, and, because writes are not
synced, for each page the images a crash may leave of it: the one last synced and every one written
since.

An `Image` is a page together with the commit that made it.  The second component is a ghost: it is
carried along wherever bytes are copied and is never looked at, so that it can be said of any copy
of a page, in a frame or in a file, which committed version it is a copy of.
-/

namespace LightningDB

/-- A page, and the timestamp of the commit that made it: `0` for what was there at first. -/
structure Image where
  page : Page
  origin : ℕ
deriving DecidableEq

/-- The image of a page nothing was ever written to. -/
def Image.zero : Image := ⟨Page.zero, 0⟩

/-- `FileHandle`, with the content of its file. -/
structure FileHandle where
  numPages : ℕ
  pages : ℕ → Image
  /-- What a crash may leave of a page. -/
  durable : ℕ → List Image

namespace FileHandle

variable (fh : FileHandle)

/-- `write_page`.  The page count does not change. -/
def writePage (pageIdx : ℕ) (img : Image) : FileHandle :=
  { fh with
    pages := Function.update fh.pages pageIdx img
    durable := Function.update fh.durable pageIdx (img :: fh.durable pageIdx) }

/-- `sync`: from now on a crash leaves what has been written. -/
def sync : FileHandle := { fh with durable := fun i => [fh.pages i] }

/-- `add_new_page`, when no freed page is at hand. -/
def addNewPage : FileHandle := { fh with numPages := fh.numPages + 1 }

end FileHandle

/-- The open data files, by file id. -/
abbrev Disk := ℕ → FileHandle

namespace Disk

variable (d : Disk) (k : PageKey)

/-- What the buffer manager loads on a miss: the page of the file, or zeros past the page count. -/
def loadPage : Image :=
  if k.2 < (d k.1).numPages then (d k.1).pages k.2 else Image.zero

/-- The content of a page of a file. -/
def current : Image := (d k.1).pages k.2

/-- What a crash may leave of a page. -/
def durable : List Image := (d k.1).durable k.2

/-- `write_page` on the file of a page. -/
def writePage (img : Image) : Disk :=
  Function.update d k.1 ((d k.1).writePage k.2 img)

/-- `sync` of a file. -/
def sync (fileId : ℕ) : Disk := Function.update d fileId (d fileId).sync

/-- `add_new_page` on a file. -/
def addNewPage (fileId : ℕ) : Disk := Function.update d fileId (d fileId).addNewPage

variable (d : Disk) (k k' : PageKey) (img : Image)

@[simp] lemma current_writePage :
    (d.writePage k img).current k' = if k' = k then img else d.current k' := by
  obtain ⟨f, p⟩ := k
  obtain ⟨f', p'⟩ := k'
  by_cases hf : f' = f
  · subst hf
    by_cases hp : p' = p
    · subst hp
      simp [current, writePage, FileHandle.writePage]
    · simp [current, writePage, FileHandle.writePage, hp]
  · simp [current, writePage, hf]

@[simp] lemma durable_writePage : (d.writePage k img).durable k' =
      if k' = k then img :: d.durable k else d.durable k' := by
  obtain ⟨f, p⟩ := k
  obtain ⟨f', p'⟩ := k'
  by_cases hf : f' = f
  · subst hf
    by_cases hp : p' = p
    · subst hp
      simp [durable, writePage, FileHandle.writePage]
    · simp [durable, writePage, FileHandle.writePage, hp]
  · simp [durable, writePage, hf]

variable (f : ℕ)

@[simp] lemma numPages_writePage : (d.writePage k img f).numPages = (d f).numPages := by
  by_cases hf : f = k.1
  · subst hf
    simp [writePage, FileHandle.writePage]
  · simp [writePage, hf]

@[simp] lemma current_sync : (d.sync f).current k = d.current k := by
  by_cases hf : k.1 = f
  · subst hf
    simp [current, sync, FileHandle.sync]
  · simp [current, sync, hf]

@[simp] lemma durable_sync :
    (d.sync f).durable k = if k.1 = f then [d.current k] else d.durable k := by
  by_cases hf : k.1 = f
  · subst hf
    simp [durable, current, sync, FileHandle.sync]
  · simp [durable, sync, hf]

@[simp] lemma numPages_sync (f f' : ℕ) : (d.sync f f').numPages = (d f').numPages := by
  by_cases hf : f' = f
  · subst hf
    simp [sync, FileHandle.sync]
  · simp [sync, hf]

@[simp] lemma current_addNewPage : (d.addNewPage f).current k = d.current k := by
  by_cases hf : k.1 = f
  · subst hf
    simp [current, addNewPage, FileHandle.addNewPage]
  · simp [current, addNewPage, hf]

@[simp] lemma durable_addNewPage : (d.addNewPage f).durable k = d.durable k := by
  by_cases hf : k.1 = f
  · subst hf
    simp [durable, addNewPage, FileHandle.addNewPage]
  · simp [durable, addNewPage, hf]

lemma numPages_le_addNewPage (f f' : ℕ) : (d f').numPages ≤ (d.addNewPage f f').numPages := by
  by_cases hf : f' = f
  · subst hf
    simp [addNewPage, FileHandle.addNewPage]
  · simp [addNewPage, hf]

/-- `d'` is `d` after some writes, each of an image and to a page that `P` admits. -/
inductive Writes (P : PageKey → Image → Prop) (d : Disk) : Disk → Prop where
  | refl : Writes P d d
  | write {d' : Disk} {k : PageKey} {img : Image} :
      Writes P d d' → P k img → Writes P d (d'.writePage k img)

namespace Writes

variable {P : PageKey → Image → Prop} {d d' : Disk}

variable {k : PageKey} {img : Image}

lemma mono {Q : PageKey → Image → Prop} (hPQ : ∀ k img, P k img → Q k img) (h : Writes P d d') :
    Writes Q d d' := by
  induction h with
  | refl => exact .refl
  | write _ hP ih => exact .write ih (hPQ _ _ hP)

lemma numPages (h : Writes P d d') (f : ℕ) : (d' f).numPages = (d f).numPages := by
  induction h with
  | refl => rfl
  | write _ _ ih => rw [numPages_writePage, ih]

lemma current (h : Writes P d d') (k : PageKey) : d'.current k = d.current k ∨ P k (d'.current k) := by
  induction h with
  | refl => exact .inl rfl
  | @write d' k' img _ hP ih =>
    rw [current_writePage]
    split
    next hk => exact .inr (hk ▸ hP)
    · exact ih

/-- What a crash may leave of a page is what it might have left before or one of those written. -/
lemma durable (h : Writes P d d') (himg : img ∈ d'.durable k) : img ∈ d.durable k ∨ P k img := by
  induction h with
  | refl => exact .inl himg
  | @write d' k' img' _ hP ih =>
    rw [durable_writePage] at himg
    split at himg
    next hk =>
      subst hk
      rcases List.mem_cons.1 himg with rfl | himg
      · exact .inr hP
      · exact ih himg
    · exact ih himg

end Writes

end Disk

end LightningDB
