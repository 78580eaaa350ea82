import SystemProjects.Lib.Memory
import SystemProjects.Lib.Run

/-!
# The page tables of `mmu.c`

Directories and tables are pages of 1024 packed words in a byte memory. Addresses have 32 bits, since
`page_frame_address` has 20. The page that `memalign` would give comes with the call.
-/

open SystemProjects.Memory

namespace SystemProjects.Mmu

def pageSize : Nat := 4096
def pageShift : Nat := 12

def pageDirectoryIndex (virtualAddress : Nat) : Nat := virtualAddress / 2 ^ 22

def pageTableIndex (virtualAddress : Nat) : Nat := virtualAddress / 2 ^ pageShift % 1024

/-! ## `page_entry`

`present` is bit 0 and `page_frame_address` is bits 10 to 29. -/

def present (entry : Nat) : Bool := entry % 2 = 1

def pageFrameAddress (entry : Nat) : Nat := entry / 2 ^ 10 % 2 ^ 20

def setPageFrameAddress (entry address : Nat) : Nat :=
  entry % 2 ^ 10 + address % 2 ^ 20 * 2 ^ 10 + entry / 2 ^ 30 * 2 ^ 30

def setPresent (entry : Nat) : Nat := entry / 2 * 2 + 1

def setPageEntry (entry addr : Nat) : Nat := setPresent (setPageFrameAddress entry (addr / 2 ^ pageShift))

def getAddrFromEntry (entry : Nat) : Nat := pageFrameAddress entry * 2 ^ pageShift

/-! ## The address space -/

structure State where
  mem : Mem
  /-- The pages that `memalign` has given so far. -/
  pages : List Nat

/-- `page` is what `memalign` gives. -/
def allocatePage (s : State) (page : Nat) : State :=
  { mem := fill s.mem page pageSize 0, pages := page :: s.pages }

/-- `set_page_entry` on the entry at `a`. -/
def State.setEntry (s : State) (a addr : Nat) : State :=
  { s with mem := store32 s.mem a (setPageEntry (load32 s.mem a) addr) }

def dirEntry (dir virtualAddress : Nat) : Nat := dir + 4 * pageDirectoryIndex virtualAddress

def insertPageIntoAddressSpace (s : State) (dir virtualAddress physicalAddress page : Nat) : State :=
  let entry := dirEntry dir virtualAddress
  let (s, table) :=
    if present (load32 s.mem entry) then (s, getAddrFromEntry (load32 s.mem entry))
    else ((allocatePage s page).setEntry entry page, page)
  s.setEntry (table + 4 * pageTableIndex virtualAddress) physicalAddress

/-- Nothing when an assertion fails. -/
def getPageFromAddressSpace (s : State) (dir virtualAddress : Nat) : Option Nat :=
  let entry := load32 s.mem (dirEntry dir virtualAddress)
  if present entry then
    let tableEntry := load32 s.mem (getAddrFromEntry entry + 4 * pageTableIndex virtualAddress)
    if present tableEntry then some (getAddrFromEntry tableEntry) else none
  else none

/-! ## Runs -/

/-- An insertion, with the page that `memalign` would give. -/
structure Insert where
  va : BitVec 32
  pa : BitVec 32
  page : Nat

def step (dir : Nat) (s : State) (op : Insert) : Option State :=
  some (insertPageIntoAddressSpace s dir op.va.toNat op.pa.toNat op.page)

/-- A page that is not in use. -/
structure FreshPage (s : State) (page : Nat) : Prop where
  aligned : page % pageSize = 0
  bound : page + pageSize ≤ 2 ^ 32
  new : page ∉ s.pages

/-- What is assumed of `memalign`, when it is called. -/
def Allocates (dir : Nat) (s : State) (op : Insert) : Prop :=
  present (load32 s.mem (dirEntry dir op.va.toNat)) = false → FreshPage s op.page

/-- The directory is a page of its own, and all zero. -/
structure ZeroedDirectory (s : State) (dir : Nat) : Prop where
  aligned : dir % pageSize = 0
  bound : dir + pageSize ≤ 2 ^ 32
  pages : s.pages = [dir]
  zero : ∀ x < pageSize, s.mem (dir + x) = 0

/-! ## The map -/

def samePage (v w : BitVec 32) : Bool := v.toNat / pageSize = w.toNat / pageSize

/-- The last insertion for the page of `v`. -/
def lastInsert (ops : List Insert) (v : BitVec 32) : Option Insert :=
    ops.reverse.find? fun op => samePage op.va v

/-- What the address space says of each page. -/
abbrev PageMap := Nat → Option (BitVec 32)

def PageMap.insert (M : PageMap) (op : Insert) : PageMap := fun page =>
  if page = op.va.toNat / pageSize then some op.pa else M page

end SystemProjects.Mmu
