import SystemProjects.Lib.Threads
import SystemProjects.Physical.Proofs

/-!
# The page allocator's calls, one memory access at a time

What `physical_pageAllocHigh`, `physical_pageAllocLow` and `physical_pageFree` do between `mutex_lock` and
`mutex_unlock`. A byte of the bitmap is read in one step and written back in another. `physical_pageAlloc`
calls the first and, on `NULL`, the second: the lock is given back in between.
-/

open SystemProjects.Memory SystemProjects.Run SystemProjects.Bitmap SystemProjects.Threads

namespace SystemProjects.Physical

abbrev PageCode (ρ : Type) := Code State ρ

/-- `physical_bitmap[i]`. -/
def loadByte (i : Nat) : PageCode Byte :=
  (Code.load fun s => if i < s.physicalBitmapSize then some (s.physicalBitmap i) else none).bind fun
    | some b => .ret b
    | none => .stuck

def storeByte (i : Nat) (b : Byte) : PageCode Unit :=
  .store fun s => { s with physicalBitmap := fun x => if x = i then b else s.physicalBitmap x }

def loadMax : PageCode Nat := .load fun s => s.physicalMaxAddress

def isPageFreeCode (address : Nat) : PageCode Int :=
  (loadByte (bitmapByteIndex address)).bind fun b =>
    .ret (if b &&& 1#8 <<< bitmapBitIndex address ≠ 0 then FAIL else SUCCESS)

def pageAllocAddressCode (a : Nat) : PageCode Unit :=
  (loadByte (bitmapByteIndex a)).bind fun b => storeByte (bitmapByteIndex a) (b ||| 1#8 <<< bitmapBitIndex a)

def pageAllocLimitCode : Nat → Nat → Nat → PageCode Nat
  | 0, _, _ => .stuck
  | fuel + 1, low, high =>
    if low < high then
      (isPageFreeCode low).bind fun r =>
        if r = SUCCESS then (pageAllocAddressCode low).bind fun _ => .ret low
        else pageAllocLimitCode fuel (dword (low + size4kb)) high
    else .ret 0

def pageAllocHighBody : PageCode Nat :=
  loadMax.bind fun max =>
    if max > physicalHighPaddress then
      loadMax.bind fun max => pageAllocLimitCode pageFuel physicalHighPaddress max
    else .ret 0

def pageAllocLowBody : PageCode Nat :=
  loadMax.bind fun max =>
    if physicalHighPaddress > max then
      loadMax.bind fun max => pageAllocLimitCode pageFuel physicalLowPaddress max
    else pageAllocLimitCode pageFuel physicalLowPaddress physicalHighPaddress

def pageFreeBody (physicalAddress : Nat) : PageCode Nat :=
  if physicalAddress ≠ 0 then
    loadMax.bind fun max =>
      if physicalAddress < max then
        (loadByte (bitmapByteIndex physicalAddress)).bind fun b =>
          (storeByte (bitmapByteIndex physicalAddress)
            (b &&& ~~~(1#8 <<< bitmapBitIndex physicalAddress))).bind
            fun _ => .ret 0
      else .ret 0
  else .ret 0

/-! ## The monitor -/

inductive PageCall where
  | pageAllocHigh
  | pageAllocLow
  | pageFree (a : Nat)

/-- Every call takes the lock, and no client writes the bitmap. -/
def pageMonitor : Monitor State PageCall Nat Empty where
  early _ := none
  body
    | .pageAllocHigh => pageAllocHighBody
    | .pageAllocLow => pageAllocLowBody
    | .pageFree a => pageFreeBody a
  write u _ := u.elim

def PageCall.op : PageCall → Op
  | pageAllocHigh => .pageAllocHigh
  | pageAllocLow => .pageAllocLow
  | pageFree a => .pageFree a

/-! ## The steps together -/

@[simp] theorem run_loadMax (s : State) : loadMax.run s = some (s, s.physicalMaxAddress) := rfl

theorem run_loadByte (i : Nat) (s : State) : (loadByte i).run s =
    if i < s.physicalBitmapSize then some (s, s.physicalBitmap i) else none := by
  by_cases h : i < s.physicalBitmapSize
  · simp [loadByte, h]
  · simp [loadByte, h]

@[simp] theorem run_storeByte (i : Nat) (b : Byte) (s : State) : (storeByte i b).run s =
    some ({ s with physicalBitmap := fun x => if x = i then b else s.physicalBitmap x }, ()) := rfl

theorem isPageFreeCode_run (address : Nat) (s : State) :
    (isPageFreeCode address).run s = (physicalIsPageFree s address).map fun r => (s, r) := by
  rw [isPageFreeCode, Code.run_bind, run_loadByte, physicalIsPageFree]
  split
  · split
    case isTrue h => rw [Option.bind_some, if_pos h]; rfl
    case isFalse h => rw [Option.bind_some, if_neg h]; rfl
  · rfl

theorem pageAllocAddressCode_run (a : Nat) (s : State) :
    (pageAllocAddressCode a).run s = (physicalPageAllocAddress s a).map fun s' => (s', ()) := by
  rw [pageAllocAddressCode, Code.run_bind, run_loadByte, physicalPageAllocAddress, setByte]
  split
  · rfl
  · rfl

theorem pageAllocLimitCode_run (high : Nat) : ∀ (fuel low : Nat) (s : State),
    (pageAllocLimitCode fuel low high).run s = physicalPageAllocLimit fuel s low high := by
  intro fuel
  induction fuel with
  | zero => intro low s; rfl
  | succ fuel ih =>
    intro low s
    rw [pageAllocLimitCode, physicalPageAllocLimit]
    split
    case isTrue =>
      rw [Code.run_bind, isPageFreeCode_run]
      cases physicalIsPageFree s low with
      | none => rfl
      | some r =>
        simp only [Option.map_some, Option.bind_some]
        split
        · rw [Code.run_bind, pageAllocAddressCode_run]
          cases physicalPageAllocAddress s low with
          | none => rfl
          | some s' => rfl
        · exact ih _ s
    case isFalse => rfl

theorem pageAllocHighBody_run (s : State) : pageAllocHighBody.run s = physicalPageAllocHigh s := by
  rw [pageAllocHighBody, physicalPageAllocHigh, Code.run_bind, run_loadMax, Option.bind_some]
  dsimp only
  split
  · rw [Code.run_bind, run_loadMax, Option.bind_some]
    exact pageAllocLimitCode_run _ _ _ s
  · rfl

theorem pageAllocLowBody_run (s : State) : pageAllocLowBody.run s = physicalPageAllocLow s := by
  rw [pageAllocLowBody, physicalPageAllocLow, Code.run_bind, run_loadMax, Option.bind_some]
  dsimp only
  split
  · rw [Code.run_bind, run_loadMax, Option.bind_some]
    exact pageAllocLimitCode_run _ _ _ s
  · exact pageAllocLimitCode_run _ _ _ s

theorem pageFreeBody_run (a : Nat) (s : State) :
    (pageFreeBody a).run s = (physicalPageFree s a).map fun s' => (s', 0) := by
  rw [pageFreeBody, physicalPageFree]
  split
  case isTrue h0 =>
    rw [Code.run_bind, run_loadMax, Option.bind_some]
    dsimp only
    split
    case isTrue hmax =>
      rw [if_pos ⟨h0, hmax⟩, Code.run_bind, run_loadByte, setByte]
      split
      · rfl
      · rfl
    case isFalse hmax => rw [if_neg (fun h => hmax h.2)]; rfl
  case isFalse h0 => rw [if_neg (fun h => h0 h.1)]; rfl

theorem pageMonitor_run (k : PageCall) (s : State) : (pageMonitor.body k).run s = step s k.op := by
  cases k with
  | pageAllocHigh => exact pageAllocHighBody_run s
  | pageAllocLow => exact pageAllocLowBody_run s
  | pageFree a => exact pageFreeBody_run a s

end SystemProjects.Physical
