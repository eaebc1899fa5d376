import LightningDB.Framework.Runs
import Mathlib.Data.Finset.SDiff
import Mathlib.Order.Interval.Finset.Nat

/-!
# Allocation of pages

`FileHandle::add_new_page` takes a page from the free list of the file, if it has one, and otherwise the page
behind the last one.  The free list and the number of pages are changed by different operations: truncation
enters the pages that it cuts off into the list and lowers the number below them, so that the next page
handed out is not part of the file, and later the same page is handed out once more
(`truncated_page_handed_out_twice`).

The list is written to `free_space.bin` and read when the database is opened, which makes any page
available again that has been handed out in between.
-/

namespace LightningDB

open Framework Function List

/-- `FileHandle`, with the length of the file.  The last two fields do not exist in the source; they say which
pages are in use. -/
structure FilePages where
  numPages : ℕ
  /-- `set_free_space_manager` has been called. -/
  managed : Bool
  /-- The pages on disk. -/
  size : ℕ
  /-- What `add_new_page` has returned since the file was opened, without what has been freed. -/
  handedOut : Finset ℕ
  /-- What has been freed or cut off, without what has been handed out again. -/
  freed : Finset ℕ

/-- The files, by their ids, with `FreeSpaceManager` and `free_space.bin`. -/
structure PageSpace where
  handle : ℕ → FilePages
  freePages : ℕ → List ℕ
  saved : Option (ℕ → List ℕ)

namespace FilePages

def empty : FilePages := ⟨0, false, 0, ∅, ∅⟩

/-- A page that has been handed out or is part of the file, and has not been freed since. -/
def Allocated (h : FilePages) (page : ℕ) : Prop :=
  (page ∈ h.handedOut ∨ page < h.numPages) ∧ page ∉ h.freed

instance (h : FilePages) (page : ℕ) : Decidable (h.Allocated page) :=
  inferInstanceAs (Decidable (_ ∧ _))

/-- The page is in use from now on. -/
def give (h : FilePages) (page : ℕ) : FilePages :=
  { h with handedOut := insert page h.handedOut, freed := h.freed.erase page }

/-- `FileHandle::open` of a file that has been closed. -/
def reopen (h : FilePages) : FilePages :=
  { h with numPages := h.size, managed := false, handedOut := ∅ }

end FilePages

namespace PageSpace

/-- The files of a new database. -/
def empty : PageSpace := ⟨fun _ => .empty, fun _ => [], none⟩

variable (s : PageSpace) (file : ℕ)

def setHandle (h : FilePages) : PageSpace :=
  { s with handle := update s.handle file h }

/-- `record_free_page`, for several pages. -/
def recordFreePages (pages : List ℕ) : PageSpace :=
  { s with freePages := update s.freePages file (s.freePages file ++ pages) }

/-- `get_free_page`. -/
def getFreePage : Option (ℕ × PageSpace) :=
  match s.freePages file with
  | [] => none
  | page :: rest => some (page, { s with freePages := update s.freePages file rest })

/-- `add_new_page` behind the last page. -/
def extend : ℕ × PageSpace :=
  let h := s.handle file
  (h.numPages, s.setHandle file { h.give h.numPages with numPages := h.numPages + 1 })

/-- `add_new_page`. -/
def addNewPage : ℕ × PageSpace :=
  if (s.handle file).managed then
    match s.getFreePage file with
    | some (page, s') => (page, s'.setHandle file ((s.handle file).give page))
    | none => s.extend file
  else s.extend file

/-- `free_page`. -/
def freePage (file page : ℕ) : PageSpace :=
  let h := s.handle file
  let s' := if h.managed then s.recordFreePages file [page] else s
  s'.setHandle file { h with handedOut := h.handedOut.erase page, freed := insert page h.freed }

/-- `truncate_last_pages`. -/
def truncateLastPages (file keepCount : ℕ) : PageSpace :=
  let h := s.handle file
  if h.numPages ≤ keepCount then s
  else
    let s' := if h.managed then s.recordFreePages file (List.range' keepCount (h.numPages - keepCount)) else s
    s'.setHandle file
      { h with
        numPages := keepCount
        size := keepCount
        handedOut := h.handedOut \ Finset.Ico keepCount h.numPages
        freed := h.freed ∪ Finset.Ico keepCount h.numPages }

/-- `write_page`, as far as the length of the file depends on it. -/
def writePage (file page : ℕ) : PageSpace :=
  let h := s.handle file
  s.setHandle file { h with size := max h.size (page + 1) }

/-- `set_free_space_manager`. -/
def setFreeSpaceManager : PageSpace :=
  s.setHandle file { s.handle file with managed := true }

/-- `FreeSpaceManager::save`. -/
def save : PageSpace := { s with saved := some s.freePages }

/-- What `FreeSpaceManager::load` reads. -/
def load : ℕ → List ℕ := s.saved.getD fun _ => []

/-- The database is opened again. -/
def reopen : PageSpace :=
  { s with handle := fun file => (s.handle file).reopen, freePages := s.load }

/-! ## Runs -/

/-- The operations on the files. -/
inductive Call where
  | addNewPage (file : ℕ)
  | freePage (file page : ℕ)
  | truncateLastPages (file keepCount : ℕ)
  | writePage (file page : ℕ)
  | setFreeSpaceManager (file : ℕ)
  | save
  | reopen

/-- What an operation does. -/
def apply : Call → PageSpace
  | .addNewPage file => (s.addNewPage file).2
  | .freePage file page => s.freePage file page
  | .truncateLastPages file keepCount => s.truncateLastPages file keepCount
  | .writePage file page => s.writePage file page
  | .setFreeSpaceManager file => s.setFreeSpaceManager file
  | .save => s.save
  | .reopen => s.reopen

/-- Any sequence of operations on the files of a new database. -/
def calls : System PageSpace Call where
  init s := s = .empty
  step s call := some (s.apply call)

/-- When an operation does no harm.  Only pages in use are freed, no page of a file with a free list is cut
off, and a free list that is loaded has only pages of the file that are still free. -/
def Careful : Call → Prop
  | .freePage file page => (s.handle file).managed → (s.handle file).Allocated page
  | .truncateLastPages file keepCount => keepCount < (s.handle file).numPages →
      (s.handle file).managed = false ∧ ∀ page ∈ s.freePages file, page < keepCount
  | .reopen => ∀ file, (s.load file).Nodup ∧
      ∀ page ∈ s.load file, page < (s.handle file).size ∧ page ∈ (s.handle file).freed
  | _ => True

/-! ## The invariant -/

/-- The free list of a file and its pages agree. -/
structure Agree (h : FilePages) (free : List ℕ) : Prop where
  nodup : free.Nodup
  inside : ∀ page ∈ free, page < h.numPages
  isFreed : ∀ page ∈ free, page ∈ h.freed
  given : ∀ page ∈ h.handedOut, page < h.numPages

/-- The free lists of all files are right. -/
def Sound : Prop := ∀ file, Agree (s.handle file) (s.freePages file)

variable {s : PageSpace} {h : FilePages} {free : List ℕ} {page : ℕ}

namespace Agree

lemma not_allocated (hagree : Agree h free) (hpage : page ∈ free) : ¬ h.Allocated page :=
  fun hall => hall.2 (hagree.isFreed page hpage)

lemma lt_of_allocated (hagree : Agree h free) (hall : h.Allocated page) : page < h.numPages :=
  hall.1.elim (hagree.given page) id

lemma give (hagree : Agree h (page :: free)) : Agree (h.give page) free where
  nodup := hagree.nodup.of_cons
  inside p hp := hagree.inside p (mem_cons_of_mem _ hp)
  isFreed p hp := by
    have hne : p ≠ page := fun heq => (nodup_cons.1 hagree.nodup).1 (heq ▸ hp)
    exact Finset.mem_erase.2 ⟨hne, hagree.isFreed p (mem_cons_of_mem _ hp)⟩
  given p hp := by
    rcases Finset.mem_insert.1 hp with rfl | hp
    · exact hagree.inside p mem_cons_self
    · exact hagree.given p hp

lemma extend (hagree : Agree h free) :
    Agree { h.give h.numPages with numPages := h.numPages + 1 } free where
  nodup := hagree.nodup
  inside p hp := Nat.lt_succ_of_lt (hagree.inside p hp)
  isFreed p hp := Finset.mem_erase.2 ⟨(hagree.inside p hp).ne, hagree.isFreed p hp⟩
  given p hp := by
    rcases Finset.mem_insert.1 hp with rfl | hp
    · exact Nat.lt_succ_self _
    · exact Nat.lt_succ_of_lt (hagree.given p hp)

lemma forget (hagree : Agree h free) (page : ℕ) :
    Agree { h with handedOut := h.handedOut.erase page, freed := insert page h.freed } free where
  nodup := hagree.nodup
  inside := hagree.inside
  isFreed p hp := Finset.mem_insert_of_mem (hagree.isFreed p hp)
  given p hp := hagree.given p (Finset.mem_of_mem_erase hp)

/-- A page that is in use is freed and entered into the list. -/
lemma freeAllocated (hagree : Agree h free) (hall : h.Allocated page) :
    Agree { h with handedOut := h.handedOut.erase page, freed := insert page h.freed }
      (free ++ [page]) where
  nodup := by
    refine nodup_append.2 ⟨hagree.nodup, nodup_singleton page, ?_⟩
    intro p hp q hq heq
    rw [mem_singleton] at hq
    subst heq hq
    exact hagree.not_allocated hp hall
  inside := forall_mem_append.2 ⟨hagree.inside, forall_mem_singleton.2 (hagree.lt_of_allocated hall)⟩
  isFreed p hp := by
    rcases mem_append.1 hp with hp | hp
    · exact Finset.mem_insert_of_mem (hagree.isFreed p hp)
    · exact Finset.mem_insert.2 (.inl (mem_singleton.1 hp))
  given p hp := hagree.given p (Finset.mem_of_mem_erase hp)

lemma truncate (hagree : Agree h free) {keepCount size : ℕ} (hfree : ∀ page ∈ free, page < keepCount) :
    Agree { h with
      numPages := keepCount
      size := size
      handedOut := h.handedOut \ Finset.Ico keepCount h.numPages
      freed := h.freed ∪ Finset.Ico keepCount h.numPages } free where
  nodup := hagree.nodup
  inside := hfree
  isFreed p hp := Finset.mem_union_left _ (hagree.isFreed p hp)
  given p hp := by
    obtain ⟨hgiven, hcut⟩ := Finset.mem_sdiff.1 hp
    have hlt := hagree.given p hgiven
    rw [Finset.mem_Ico] at hcut
    change p < keepCount
    omega

end Agree

variable {file p : ℕ}

lemma sound_setHandle (hs : Sound s) {free' : List ℕ} (hagree : Agree h free')
    (hfree : s.freePages file = free') : Sound (s.setHandle file h) := by
  intro f
  rw [setHandle]
  dsimp only
  by_cases hf : f = file
  · subst hf
    rw [update_self, hfree]
    exact hagree
  · rw [update_of_ne hf]
    exact hs f

/-- The same for a state whose free list has been changed before. -/
lemma sound_update (hs : Sound s) (hagree : Agree h free) :
    Sound ({ s with freePages := update s.freePages file free }.setHandle file h) := by
  intro f
  rw [setHandle]
  dsimp only
  by_cases hf : f = file
  · subst hf
    rw [update_self, update_self]
    exact hagree
  · rw [update_of_ne hf, update_of_ne hf]
    exact hs f

/-- The two ways in which `add_new_page` can end. -/
lemma addNewPage_cases (s : PageSpace) (file : ℕ) :
    (∃ page rest, s.freePages file = page :: rest ∧ s.addNewPage file =
      (page, { s with freePages := update s.freePages file rest }.setHandle file
        ((s.handle file).give page))) ∨
    s.addNewPage file = s.extend file := by
  rw [addNewPage, getFreePage]
  split
  · cases hlist : s.freePages file with
    | nil => exact .inr rfl
    | cons page rest => exact .inl ⟨page, rest, rfl, rfl⟩
  · exact .inr rfl

lemma sound_addNewPage (hs : Sound s) (file : ℕ) : Sound (s.addNewPage file).2 := by
  rcases addNewPage_cases s file with ⟨page, rest, hlist, heq⟩ | heq
  · have hagree := hs file
    rw [hlist] at hagree
    rw [heq]
    exact sound_update hs hagree.give
  · rw [heq]
    exact sound_setHandle hs (hs file).extend rfl

lemma sound_freePage (hs : Sound s)
    (hok : (s.handle file).managed → (s.handle file).Allocated page) : Sound (s.freePage file page) := by
  rw [freePage]
  split
  next hmanaged => exact sound_update hs ((hs file).freeAllocated (hok hmanaged))
  · exact sound_setHandle hs ((hs file).forget page) rfl

lemma sound_truncateLastPages (hs : Sound s) {keepCount : ℕ}
    (hok : keepCount < (s.handle file).numPages →
      (s.handle file).managed = false ∧ ∀ page ∈ s.freePages file, page < keepCount) :
    Sound (s.truncateLastPages file keepCount) := by
  rw [truncateLastPages]
  split
  · exact hs
  next hcut =>
    obtain ⟨hmanaged, hfree⟩ := hok (Nat.lt_of_not_le hcut)
    rw [if_neg (by rw [hmanaged]; exact Bool.false_ne_true)]
    exact sound_setHandle hs ((hs file).truncate hfree) rfl

lemma sound_apply (hs : Sound s) {call : Call} (hok : Careful s call) : Sound (s.apply call) := by
  cases call with
  | addNewPage file => exact sound_addNewPage hs file
  | freePage file page => exact sound_freePage hs hok
  | truncateLastPages file keepCount => exact sound_truncateLastPages hs hok
  | writePage file | setFreeSpaceManager file =>
    have hagree := hs file
    exact sound_setHandle hs ⟨hagree.nodup, hagree.inside, hagree.isFreed, hagree.given⟩ rfl
  | save => exact hs
  | reopen =>
    intro file
    obtain ⟨hnodup, hfree⟩ := hok file
    exact ⟨hnodup, fun p hp => (hfree p hp).1, fun p hp => (hfree p hp).2,
      fun p hp => absurd hp (Finset.notMem_empty p)⟩

/-- The free lists are right in every state that careful operations lead to. -/
lemma sound_of_reachable (hs : calls.ReachableBy Careful s) : Sound s := by
  refine hs.invariant (I := Sound) ?_ ?_
  · rintro _ rfl file
    exact ⟨nodup_nil, fun p hp => absurd hp not_mem_nil, fun p hp => absurd hp not_mem_nil,
      fun p hp => absurd hp (Finset.notMem_empty p)⟩
  · intro s call s' _ hs hok hstep
    obtain rfl : s.apply call = s' := Option.some.inj hstep
    exact sound_apply hs hok

/-- Where the free list is right, the page that is handed out is a page of the file that was not in use. -/
lemma addNewPage_exclusive (hs : Sound s) (file : ℕ) :
    (s.addNewPage file).1 < ((s.addNewPage file).2.handle file).numPages ∧
      ¬ (s.handle file).Allocated (s.addNewPage file).1 := by
  have hagree := hs file
  rcases addNewPage_cases s file with ⟨page, rest, hlist, heq⟩ | heq
  · have hmem : page ∈ s.freePages file := hlist ▸ mem_cons_self
    rw [heq]
    refine ⟨?_, hagree.not_allocated hmem⟩
    simp only [setHandle, update_self]
    exact hagree.inside page hmem
  · rw [heq, extend]
    refine ⟨?_, fun hall => lt_irrefl _ (hagree.lt_of_allocated hall)⟩
    simp only [setHandle, update_self]
    exact Nat.lt_succ_self _

/-- A page that is handed out is in use, and no other page stops being so. -/
lemma allocated_addNewPage (hp : p = (s.addNewPage file).1 ∨ (s.handle file).Allocated p) :
    ((s.addNewPage file).2.handle file).Allocated p := by
  have hgive : ∀ {page n : ℕ}, (s.handle file).numPages ≤ n →
      (p = page ∨ (s.handle file).Allocated p) →
        FilePages.Allocated { (s.handle file).give page with numPages := n } p := by
    intro page n hn hp
    by_cases heq : p = page
    · subst heq
      exact ⟨.inl (Finset.mem_insert_self _ _), Finset.notMem_erase _ _⟩
    · obtain ⟨hin, hfreed⟩ := hp.resolve_left heq
      exact ⟨hin.imp Finset.mem_insert_of_mem fun h => h.trans_le hn,
        fun h => hfreed (Finset.mem_of_mem_erase h)⟩
  rcases addNewPage_cases s file with ⟨page, rest, -, heq⟩ | heq
  · rw [heq] at hp ⊢
    simp only [setHandle, update_self]
    exact hgive le_rfl hp
  · rw [heq, extend] at hp ⊢
    simp only [setHandle, update_self]
    exact hgive (Nat.le_succ _) hp

lemma allocated_freePage {page : ℕ} (hne : p ≠ page) (hp : (s.handle file).Allocated p) :
    ((s.freePage file page).handle file).Allocated p := by
  have hhandle : (s.freePage file page).handle file =
      { s.handle file with
        handedOut := (s.handle file).handedOut.erase page
        freed := insert page (s.handle file).freed } := by
    exact update_self _ _ _
  rw [hhandle]
  refine ⟨hp.1.imp (fun h => Finset.mem_erase.2 ⟨hne, h⟩) id, fun h => ?_⟩
  exact (Finset.mem_insert.1 h).elim hne hp.2

lemma reachable_apply (hs : calls.ReachableBy Careful s) (call : Call) (hok : Careful s call) :
    calls.ReachableBy Careful (s.apply call) :=
  hs.step hok rfl

end PageSpace

open PageSpace

/-- **Allocation is exclusive** as long as only pages in use are freed, no page of a file with a free list is
cut off, and no list is loaded that has a page in use or a page that the file does not have. -/
theorem new_page_exclusive {s : PageSpace} (hs : calls.ReachableBy Careful s) (file : ℕ) :
    (s.addNewPage file).1 < ((s.addNewPage file).2.handle file).numPages ∧
      ¬ (s.handle file).Allocated (s.addNewPage file).1 :=
  addNewPage_exclusive (sound_of_reachable hs) file

/-- The first of two pages is freed and handed out again. -/
theorem new_page_exclusive_freed : ∃ s, calls.ReachableBy Careful s ∧ (s.addNewPage 0).1 = 0 ∧
      (s.addNewPage 0).1 < ((s.addNewPage 0).2.handle 0).numPages ∧
        ¬ (s.handle 0).Allocated (s.addNewPage 0).1 := by
  have h₀ : calls.ReachableBy Careful .empty := .init rfl
  have h₁ := reachable_apply (reachable_apply h₀ (.addNewPage 0) trivial) (.addNewPage 0) trivial
  have h₂ := reachable_apply h₁ (.setFreeSpaceManager 0) trivial
  have h₃ := reachable_apply h₂ (.freePage 0 0) fun _ => by decide
  exact ⟨_, h₃, by decide, new_page_exclusive h₃ 0⟩

/-- Three pages, of which two are cut off: both are handed out although the file ends before them, and then
the first of them a second time. -/
theorem truncated_page_handed_out_twice : ∃ s₁ s₂, calls.Reachable s₁ ∧ calls.Reachable s₂ ∧
      ((s₁.addNewPage 0).1 = 1 ∧ ((s₁.addNewPage 0).2.handle 0).numPages = 1) ∧
      ((s₂.addNewPage 0).1 = 1 ∧ (s₂.handle 0).Allocated 1) := by
  have h₀ : calls.Reachable .empty := .init rfl
  have h₁ := h₀.exec
    (rfl : calls.exec .empty [.addNewPage 0, .addNewPage 0, .addNewPage 0, .setFreeSpaceManager 0,
      .truncateLastPages 0 1] = some _)
  have h₂ := h₁.exec (rfl : calls.exec _ [.addNewPage 0, .addNewPage 0] = some _)
  exact ⟨_, _, h₁, h₂, ⟨by decide, by decide⟩, by decide, by decide⟩

end LightningDB
