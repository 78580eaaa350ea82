import SystemProjects.Lib.Bitmap
import SystemProjects.Lib.Run
import SystemProjects.Lib.Memory

/-!
# The physical page allocator of `physical.c`

One bit for each page of 4096 bytes, set when the page is taken. An access past the bitmap has no
outcome. The mutex is left out, for each function holds it from start to end.
-/

open SystemProjects.Memory

namespace SystemProjects.Physical

def size4kb : Nat := 4096
def size1kb : Nat := 1024

def physicalHighPaddress : Nat := 0x01000000
def physicalLowPaddress : Nat := 0 + size4kb

def kernelVgaPaddress : Nat := 0x000B8000

/-- More pages than there are. -/
def pageFuel : Nat := 2 ^ 20 + 1

structure State where
  physicalBitmap : Mem
  physicalBitmapSize : Nat
  physicalMaxAddress : Nat

/-! ## Pages -/

def bitmapByteIndex (address : Nat) : Nat := address / size4kb / 8

def bitmapBitIndex (address : Nat) : Nat := 8 - address / size4kb % 8 - 1

def physicalIsPageFree (s : State) (address : Nat) : Option Int :=
  if bitmapByteIndex address < s.physicalBitmapSize then
    if s.physicalBitmap (bitmapByteIndex address) &&& 1#8 <<< bitmapBitIndex address ≠ 0 then some FAIL
    else some SUCCESS
  else none

/-- Writes one byte of the bitmap. -/
def setByte (s : State) (i : Nat) (b : Byte) : Option State :=
  if i < s.physicalBitmapSize then
    some { s with physicalBitmap := fun x => if x = i then b else s.physicalBitmap x }
  else none

def physicalPageAllocAddress (s : State) (a : Nat) : Option State :=
  setByte s (bitmapByteIndex a) (s.physicalBitmap (bitmapByteIndex a) ||| 1#8 <<< bitmapBitIndex a)

/-! ## Allocation -/

/-- The new state and the address, or `NULL`. -/
def physicalPageAllocLimit : Nat → State → Nat → Nat → Option (State × Nat)
  | 0, _, _, _ => none
  | fuel + 1, s, low, high =>
    if low < high then
      (physicalIsPageFree s low).bind fun r =>
        if r = SUCCESS then (physicalPageAllocAddress s low).map (·, low)
        else physicalPageAllocLimit fuel s (dword (low + size4kb)) high
    else some (s, 0)

def physicalPageAllocHigh (s : State) : Option (State × Nat) :=
  if s.physicalMaxAddress > physicalHighPaddress then
    physicalPageAllocLimit pageFuel s physicalHighPaddress s.physicalMaxAddress
  else some (s, 0)

def physicalPageAllocLow (s : State) : Option (State × Nat) :=
  if physicalHighPaddress > s.physicalMaxAddress then
    physicalPageAllocLimit pageFuel s physicalLowPaddress s.physicalMaxAddress
  else physicalPageAllocLimit pageFuel s physicalLowPaddress physicalHighPaddress

/-- `kernel_panic` is not among the sources. A run in which it does not return ends with this call. -/
def physicalPageAlloc (s : State) : Option (State × Nat) :=
  (physicalPageAllocHigh s).bind fun (s', physicalAddress) =>
    if physicalAddress = 0 then physicalPageAllocLow s' else some (s', physicalAddress)

def physicalPageFree (s : State) (physicalAddress : Nat) : Option State :=
  if physicalAddress ≠ 0 ∧ physicalAddress < s.physicalMaxAddress then
    setByte s (bitmapByteIndex physicalAddress)
      (s.physicalBitmap (bitmapByteIndex physicalAddress) &&& ~~~(1#8 <<< bitmapBitIndex physicalAddress))
  else some s

/-! ## `physical_init` -/

/-- `struct MULTIBOOT_MEMORY_MAP`, as far as it is read. -/
structure MultibootMemoryMap where
  size : Nat
  baseLow : Nat
  lengthLow : Nat
  type : Nat

/-- `struct MULTIBOOT_INFO`, as far as it is read, and the memory map entry at each address. -/
structure MultibootInfo where
  flags : Nat
  memUpper : Nat
  mmapLength : Nat
  mmap : Nat
  entry : Nat → MultibootMemoryMap

/-- The linker's symbols around the kernel image. -/
structure Image where
  start : Nat
  stop : Nat

def multibootFlagMem : Nat := 1
def multibootFlagMmap : Nat := 32
def multibootMmapAvailable : Nat := 1

def v2p (address : Nat) : Nat := dword (address + (2 ^ 32 - 0xC0001000) + 0x00101000)

/-- `for (physicalAddress = a; physicalAddress < stop; physicalAddress += SIZE_4KB) body`. -/
def eachPage (body : State → Nat → Option State) (stop : Nat) : Nat → State → Nat → Option State
  | 0, _, _ => none
  | fuel + 1, s, a =>
    if a < stop then (body s a).bind fun s' => eachPage body stop fuel s' (dword (a + size4kb))
    else some s

/-- The loop over the memory map. -/
def eachEntry (m : MultibootInfo) : Nat → State → Nat → Option State
  | 0, _, _ => none
  | fuel + 1, s, mmap =>
    if mmap < dword (m.mmap + m.mmapLength) then
      let e := m.entry mmap
      let s' := if e.type = multibootMmapAvailable then
          eachPage physicalPageFree (dword (e.baseLow + e.lengthLow)) pageFuel s e.baseLow
        else some s
      s'.bind fun s' => eachEntry m fuel s' (dword (mmap + e.size + 4))
    else some s

def physicalInit (image : Image) (m : MultibootInfo) (s : State) : Option (State × Int) :=
  if m.flags &&& multibootFlagMem ≠ multibootFlagMem then some (s, FAIL)
  else
    let size := dword ((m.memUpper / size1kb + 1) * 256) / 8
    let s1 : State :=
      { physicalBitmap := fill s.physicalBitmap 0 size 0
        physicalBitmapSize := size
        physicalMaxAddress := dword (size1kb * size1kb * (m.memUpper / size1kb + 1)) }
    let s2 := if m.flags &&& multibootFlagMmap = multibootFlagMmap then
        eachEntry m (2 ^ 32) { s1 with physicalBitmap := fill s1.physicalBitmap 0 size 0xFF } m.mmap
      else physicalPageAllocAddress s1 kernelVgaPaddress
    s2.bind fun s2 =>
      (eachPage physicalPageAllocAddress (dword (v2p image.stop + size)) pageFuel s2
        (v2p image.start)).map (·, SUCCESS)

/-! ## Calls -/

inductive Op where
  | pageAllocHigh
  | pageAllocLow
  | pageAlloc
  | pageFree (a : Nat)

/-- The state after the call and the address it returns, `NULL` for `physical_pageFree`. -/
def step (s : State) : Op → Option (State × Nat)
  | .pageAllocHigh => physicalPageAllocHigh s
  | .pageAllocLow => physicalPageAllocLow s
  | .pageAlloc => physicalPageAlloc s
  | .pageFree a => (physicalPageFree s a).map (·, 0)

end SystemProjects.Physical
