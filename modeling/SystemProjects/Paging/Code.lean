import Mathlib.Data.Nat.Basic
import SystemProjects.Lib.Run
import SystemProjects.Lib.Memory

/-!
# The page tables of `paging.c`

Physical memory is a map from frames to their 1024 entries. `paging_mapQuick` gives access to the
frame it is passed, so an entry pointer is a frame and an index. The lock is left out.
-/

namespace SystemProjects.Paging

def pageEntrys : Nat := 1024
def pageSize : Nat := 4096

/-- `PAGE_ALIGN`. -/
def pageAlign (address : Nat) : Nat := dword (address + pageSize - 1) / pageSize * pageSize

def directoryShiftR (address : Nat) : Nat := address / 2 ^ 22
def tableShiftR (address : Nat) : Nat := address / 2 ^ 12

def getDirectoryIndex (linearAddress : Nat) : Nat := directoryShiftR linearAddress % pageEntrys
def getTableIndex (linearAddress : Nat) : Nat := tableShiftR linearAddress % pageEntrys

/-- The number of a page of physical memory, as the `address` field of an entry holds it. -/
abbrev Frame := BitVec 20

/-- `struct PAGE_DIRECTORY_ENTRY` and `struct PAGE_TABLE_ENTRY` have one layout. A directory entry
calls `dirty` reserved and `attributeindex` pagesize. -/
structure PageEntry where
  present : Bool
  readwrite : Bool
  user : Bool
  writethrough : Bool
  cachedisabled : Bool
  accessed : Bool
  dirty : Bool
  attributeindex : Bool
  globalpage : Bool
  available : BitVec 3
  address : Frame

def READONLY : Bool := false
def READWRITE : Bool := true

/-- `memset(.., 0x00, ..)`. -/
def zeroEntry : PageEntry :=
  { present := false, readwrite := false, user := false, writethrough := false, cachedisabled := false
    accessed := false, dirty := false, attributeindex := false, globalpage := false
    available := 0, address := 0 }

/-- Physical memory, the pages that `physical_pageAlloc` will return, and what `struct PROCESS_INFO`
says. -/
structure State where
  phys : Frame → Nat → PageEntry
  supply : List Nat
  pageDir : Nat
  privilege : Bool

/-- The frame that `paging_mapQuick` maps in. -/
def pagingMapQuick (p : Nat) : Frame := BitVec.ofNat 20 (tableShiftR p)

def writeEntry (s : State) (f : Frame) (index : Nat) (e : PageEntry) : State :=
  { s with phys := fun g i => if g = f ∧ i = index then e else s.phys g i }

/-- A fresh page, with whatever it holds. -/
def physicalPageAlloc (s : State) : Option (State × Nat) :=
  match s.supply with
  | [] => none
  | p :: ps => some ({ s with supply := ps }, p)

/-! ## Directory entries -/

def pagingGetPageDirectoryEntry (s : State) (linearAddress : Nat) : Frame × Nat :=
  (pagingMapQuick s.pageDir, getDirectoryIndex linearAddress)

def pagingSetPageDirectoryEntry (s : State) (linearAddress pt : Nat) : State :=
  let (pd, index) := pagingGetPageDirectoryEntry s linearAddress
  writeEntry s pd index
    { present := true, readwrite := READWRITE, user := s.privilege, writethrough := false
      cachedisabled := false, accessed := false, dirty := false, attributeindex := false
      globalpage := false, available := 0, address := BitVec.ofNat 20 (tableShiftR pt) }

/-! ## Table entries -/

/-- The loop that clears a new table, from `index = 1024 - n` on. `set` is `paging_setPageTableEntry`. -/
def clearTable (set : State → Nat → Option State) (linearAddress : Nat) : Nat → State → Option State
  | 0, s => some s
  | n + 1, s =>
    (set s (dword (linearAddress + (pageEntrys - (n + 1)) * pageSize))).bind
      (clearTable set linearAddress n)

/-- The entry for `linearAddress`, in a table that is made when there is none. -/
def pagingGetPageTableEntry (set : State → Nat → Option State) (s : State) (linearAddress : Nat) :
    Option (State × Frame × Nat) :=
  let (pd, index) := pagingGetPageDirectoryEntry s linearAddress
  let pde := s.phys pd index
  let pt := pde.address.toNat * 2 ^ 12
  if pt = 0 then
    (physicalPageAlloc s).bind fun (s1, pt) =>
      (clearTable set linearAddress pageEntrys (pagingSetPageDirectoryEntry s1 linearAddress pt)).map
        fun s2 => (s2, pagingMapQuick pt, getTableIndex linearAddress)
  else some (s, pagingMapQuick pt, getTableIndex linearAddress)

/-- The fields of a page table entry. -/
def tableEntry (s : State) (physicalAddress : Nat) (present : Bool) : PageEntry :=
  { present := present, readwrite := READWRITE, user := s.privilege, writethrough := false
    cachedisabled := false, accessed := false, dirty := false, attributeindex := false
    globalpage := false, available := 0
    address := BitVec.ofNat 20 (tableShiftR (pageAlign physicalAddress)) }

def pagingSetPageTableEntry : Nat → State → Nat → Nat → Bool → Option State
  | 0, _, _, _, _ => none
  | fuel + 1, s, linearAddress, physicalAddress, present =>
    (pagingGetPageTableEntry (fun s la => pagingSetPageTableEntry fuel s la 0 false) s
      (pageAlign linearAddress)).map fun (s', pt, index) =>
        writeEntry s' pt index (tableEntry s' physicalAddress present)

/-! ## `paging_createDirectory` -/

/-- The entry that the loop leaves at `index` of the cleared directory. -/
def defaultEntry (s : State) (index : Nat) : PageEntry :=
  let pde := { zeroEntry with user := s.privilege }
  if index = pageEntrys - 1 then
    { pde with present := true, readwrite := READWRITE, address := BitVec.ofNat 20 (tableShiftR s.pageDir) }
  else { pde with present := false, readwrite := READONLY }

def pagingCreateDirectory (s : State) : Option (State × Int) :=
  (physicalPageAlloc s).map fun (s1, p) =>
    let s2 := { s1 with pageDir := p }
    if p = 0 then (s2, FAIL)
    else
      ({ s2 with phys := fun g i =>
          if g = pagingMapQuick p ∧ i < pageEntrys then defaultEntry s2 i else s1.phys g i }, SUCCESS)

/-! ## Calls and translation -/

/-- `paging_setPageTableEntry(p, va, pa, present)`. -/
structure Op where
  va : Nat
  pa : Nat
  present : Bool

/-- Each level of the recursion makes one more table, and there are 1024. -/
def setFuel : Nat := 1026

def step (s : State) (op : Op) : Option State :=
  pagingSetPageTableEntry setFuel s op.va op.pa op.present

/-- The frame and the present flag for a page, or nothing when it has no table. -/
def walk (s : State) (v : Nat) : Option (Frame × Bool) :=
  let pde := s.phys (pagingMapQuick s.pageDir) (getDirectoryIndex v)
  if pde.present then
    let pte := s.phys pde.address (getTableIndex v)
    some (pte.address, pte.present)
  else none

end SystemProjects.Paging
