import SystemProjects.Lib.Memory
import SystemProjects.Lib.Run

/-!
# The kernel heap of `mm.c`

Pointers and `DWORD`s are `Nat`s below `2 ^ 32`, and arithmetic on them wraps where the C does. The
walks along the chain take fuel. A chain of distinct items is shorter than `walkFuel`, so a walk
that uses it up does not end.
-/

open SystemProjects.Memory

namespace SystemProjects.Heap

def pageSize : Nat := 4096

/-- `KERNEL_HEAP_VADDRESS`, where `mm_init` puts `heap_base`. -/
def heapBase : Nat := 0xD0000000

/-- `sizeof(struct MM_HEAPITEM)`. -/
def itemSizeof : Nat := 12

def walkFuel : Nat := 2 ^ 32

/-- A 32-bit pattern read as a C `int`. -/
def toInt32 (n : Nat) : Int := if n < 2 ^ 31 then n else (n : Int) - 2 ^ 32

/-- `struct PROCESS_HEAP` over the memory it lies in. -/
structure ProcessHeap where
  mem : Mem
  top : Nat

/-! ## `struct MM_HEAPITEM` -/

def itemNext (m : Mem) (a : Nat) : Nat := load32 m a
def itemSize (m : Mem) (a : Nat) : Nat := load32 m (a + 4)
def itemUsed (m : Mem) (a : Nat) : Nat := load32 m (a + 8)

def setNext (m : Mem) (a v : Nat) : Mem := store32 m a v
def setSize (m : Mem) (a v : Nat) : Mem := store32 m (a + 4) v
def setUsed (m : Mem) (a v : Nat) : Mem := store32 m (a + 8) v

/-! ## `mm_morecore` -/

/-- The page loop. `physical_pageAlloc` and `paging_map` succeed, so every page can be written. -/
def morecorePages : Nat → ProcessHeap → ProcessHeap
  | 0, h => h
  | pages + 1, h =>
    morecorePages pages { mem := fill h.mem h.top pageSize 0, top := (h.top + pageSize) % 2 ^ 32 }

/-- Where `mm_morecore` puts the first page. -/
def prevTop (h : ProcessHeap) : Nat := if h.top = 0 then heapBase else h.top

def mmMorecore (h : ProcessHeap) (size : Nat) : ProcessHeap × Nat :=
  (morecorePages (size / pageSize + 1) { h with top := prevTop h }, prevTop h)

/-! ## `mm_kfree` -/

/-- Is `item` on the chain from `tmp`? -/
def findItem (m : Mem) (item : Nat) : Nat → Nat → Option Bool
  | 0, _ => none
  | fuel + 1, tmp =>
    if tmp = 0 then some false
    else if tmp = item then some true
    else findItem m item fuel (itemNext m tmp)

/-- The inner `while`: `tmp` takes in its successors while both are free. -/
def mergeNext (tmp : Nat) : Nat → Mem → Option Mem
  | 0, _ => none
  | fuel + 1, m =>
    if itemUsed m tmp = 0 ∧ itemNext m tmp ≠ 0 ∧ itemUsed m (itemNext m tmp) = 0 then
      let m1 := setSize m tmp
        ((itemSize m tmp + (itemSizeof + itemSize m (itemNext m tmp))) % 2 ^ 32)
      mergeNext tmp fuel (setNext m1 tmp (itemNext m1 (itemNext m1 tmp)))
    else some m

/-- The `for` around it. -/
def coalesceFrom : Nat → Nat → Mem → Option Mem
  | 0, _, _ => none
  | fuel + 1, tmp, m =>
    if tmp = 0 then some m
    else (mergeNext tmp walkFuel m).bind fun m' => coalesceFrom fuel (itemNext m' tmp) m'

/-- The pointer `mm_kfree` looks for. -/
def itemOf (address : Nat) : Nat := (address + 2 ^ 32 - itemSizeof) % 2 ^ 32

def mmKfree (h : ProcessHeap) (address : Nat) : Option ProcessHeap :=
  if address = 0 then some h
  else (findItem h.mem (itemOf address) walkFuel heapBase).bind fun found =>
    if found then
      (coalesceFrom walkFuel heapBase (setUsed h.mem (itemOf address) 0)).map fun m =>
        { h with mem := m }
    else some h

/-! ## `mm_kmalloc` -/

/-- `((size + 7) & ~7) + sizeof(struct MM_HEAPITEM)`, in 32 bits. -/
def totalSize (size : Nat) : Nat := ((size + 7) % 2 ^ 32 / 8 * 8 + itemSizeof) % 2 ^ 32

/-- The first free item from `item` on with room for `total` bytes, or `NULL`. -/
def firstFit (m : Mem) (total : Nat) : Nat → Nat → Option Nat
  | 0, _ => none
  | fuel + 1, item =>
    if item = 0 then some 0
    else if itemUsed m item = 0 ∧ total ≤ itemSize m item then some item
    else firstFit m total fuel (itemNext m item)

/-- The search of `mm_kmalloc`, which an empty heap skips. -/
def searchFit (h : ProcessHeap) (total : Nat) : Option Nat :=
  if h.top ≠ 0 then firstFit h.mem total walkFuel heapBase else some 0

/-- The free item that is left behind `newItem` when it is cut after `total` bytes. -/
def carveRest (m : Mem) (newItem tmp total : Nat) : Mem :=
  let m1 := setSize m tmp ((itemSize m newItem + 2 ^ 32 - total) % 2 ^ 32)
  let m2 := setUsed m1 tmp 0
  setNext m2 tmp (itemNext m2 newItem)

/-- `PAGE_SIZE - (total_size % PAGE_SIZE ? total_size % PAGE_SIZE : total_size) - sizeof(..)`. The
first two operands are `int`s, the last one is unsigned. -/
def pageRest (total : Nat) : Nat :=
  let rem := (toInt32 total).tmod pageSize
  ((pageSize - (if rem ≠ 0 then rem else toInt32 total) - itemSizeof : Int) % 2 ^ 32).toNat

/-- The free item for what is left of the pages that `mm_morecore` added. -/
def growRest (m : Mem) (tmp total : Nat) : Mem :=
  setNext (setUsed (setSize m tmp (pageRest total)) tmp 0) tmp 0

/-- The last three writes of `mm_kmalloc`. -/
def placeItem (m : Mem) (newItem tmp size : Nat) : Mem :=
  setNext (setUsed (setSize m newItem size) newItem 1) newItem tmp

/-- The heap afterwards and the pointer returned. -/
def mmKmalloc (h : ProcessHeap) (size : Nat) : Option (ProcessHeap × Nat) :=
  if size = 0 then some (h, 0)
  else (searchFit h (totalSize size)).bind fun newItem =>
    if newItem ≠ 0 then
      let tmp := (newItem + totalSize size) % 2 ^ 32
      let m := carveRest h.mem newItem tmp (totalSize size)
      some ({ h with mem := placeItem m newItem tmp size }, (newItem + itemSizeof) % 2 ^ 32)
    else
      let (h', newItem) := mmMorecore h (totalSize size)
      if newItem = 0 then some (h', 0)
      else
        let tmp := (newItem + totalSize size) % 2 ^ 32
        let m := growRest h'.mem tmp (totalSize size)
        some ({ h' with mem := placeItem m newItem tmp size }, (newItem + itemSizeof) % 2 ^ 32)

/-! ## The heap and its clients -/

structure World where
  heap : ProcessHeap
  /-- The pointers returned and not yet freed, each with the size that was asked for. -/
  live : List (Nat × Nat)
  /-- What `mm_morecore` returned so far. -/
  grown : List Nat

inductive Op where
  | kmalloc (size : Nat)
  | kfree (p : Nat)
  /-- A client writes one byte. -/
  | write (a : Nat) (b : Byte)

def step (w : World) : Op → Option World
  | .kmalloc size => (mmKmalloc w.heap size).map fun (h, p) =>
      { heap := h
        live := if p = 0 then w.live else (p, size) :: w.live
        grown := if searchFit w.heap (totalSize size) = some 0 then prevTop w.heap :: w.grown
          else w.grown }
  | .kfree p => (mmKfree w.heap p).map fun h =>
      { w with heap := h, live := w.live.filter (·.1 ≠ p) }
  | .write a b => some { w with heap := { w.heap with mem := fill w.heap.mem a 1 b } }

/-- What the clients keep to: a nonzero 32-bit size, a live pointer, a write inside a live block. -/
def Allowed (w : World) : Op → Prop
  | .kmalloc size => 0 < size ∧ size < 2 ^ 32
  | .kfree p => ∃ n, (p, n) ∈ w.live
  | .write a _ => ∃ p n, (p, n) ∈ w.live ∧ p ≤ a ∧ a < p + n

/-- The heap before the first request. -/
def emptyWorld (m : Mem) : World := { heap := { mem := m, top := 0 }, live := [], grown := [] }

end SystemProjects.Heap
