import SystemProjects.Heap.Code
import SystemProjects.Lib.Threads

/-!
# The heap's calls, one memory access at a time

What `mm_kmalloc` and `mm_kfree` do between `mutex_lock` and `mutex_unlock`. Each field that is read or
written is a step of its own, and so is each byte that `memset` clears.
-/

open SystemProjects.Memory SystemProjects.Threads

namespace SystemProjects.Heap

abbrev HeapCode (ρ : Type) := Code ProcessHeap ρ

def loadMem {ρ : Type} (f : Mem → ρ) : HeapCode ρ := .load fun h => f h.mem

def storeMem (f : Mem → Mem) : HeapCode Unit := .store fun h => { h with mem := f h.mem }

def loadTop : HeapCode Nat := .load fun h => h.top

def storeTop (top : Nat) : HeapCode Unit := .store fun h => { h with top := top }

/-! ## `mm_kfree` -/

def findItemCode (item : Nat) : Nat → Nat → HeapCode Bool
  | 0, _ => .stuck
  | fuel + 1, tmp =>
    if tmp = 0 then .ret false
    else if tmp = item then .ret true
    else (loadMem (itemNext · tmp)).bind (findItemCode item fuel)

/-- A field of `tmp->next`. -/
def loadOfNext (f : Mem → Nat → Nat) (tmp : Nat) : HeapCode Nat :=
  (loadMem (itemNext · tmp)).bind fun next => loadMem (f · next)

/-- `!tmp->used && tmp->next != NULL && !tmp->next->used`. -/
def mergeTest (tmp : Nat) : HeapCode Bool :=
  (loadMem (itemUsed · tmp)).bind fun used =>
    if used ≠ 0 then .ret false
    else (loadMem (itemNext · tmp)).bind fun next =>
      if next = 0 then .ret false
      else (loadOfNext itemUsed tmp).bind fun used => .ret (decide (used = 0))

def mergeNextCode (tmp : Nat) : Nat → HeapCode Unit
  | 0 => .stuck
  | fuel + 1 =>
    (mergeTest tmp).bind fun both =>
      if both then
        (loadMem (itemSize · tmp)).bind fun size =>
        (loadOfNext itemSize tmp).bind fun size' =>
        (storeMem (setSize · tmp ((size + (itemSizeof + size')) % 2 ^ 32))).bind fun _ =>
        (loadOfNext itemNext tmp).bind fun next =>
        (storeMem (setNext · tmp next)).bind fun _ => mergeNextCode tmp fuel
      else .ret ()

def coalesceFromCode : Nat → Nat → HeapCode Unit
  | 0, _ => .stuck
  | fuel + 1, tmp =>
    if tmp = 0 then .ret ()
    else
      (mergeNextCode tmp walkFuel).bind fun _ =>
        (loadMem (itemNext · tmp)).bind (coalesceFromCode fuel)

def kfreeBody (address : Nat) : HeapCode Nat :=
  (findItemCode (itemOf address) walkFuel heapBase).bind fun found =>
    if found then
      (storeMem (setUsed · (itemOf address) 0)).bind fun _ =>
        (coalesceFromCode walkFuel heapBase).bind fun _ => .ret 0
    else .ret 0

/-! ## `mm_morecore` -/

/-- `memset(a, 0x00, n)`. -/
def memsetCode : Nat → Nat → HeapCode Unit
  | _, 0 => .ret ()
  | a, n + 1 => (storeMem (fill · a 1 0)).bind fun _ => memsetCode (a + 1) n

def morecorePagesCode : Nat → HeapCode Unit
  | 0 => .ret ()
  | pages + 1 =>
    loadTop.bind fun top =>
    (memsetCode top pageSize).bind fun _ =>
    loadTop.bind fun top =>
    (storeTop ((top + pageSize) % 2 ^ 32)).bind fun _ => morecorePagesCode pages

def morecoreCode (size : Nat) : HeapCode Nat :=
  loadTop.bind fun top =>
  (if top = 0 then storeTop heapBase else .ret ()).bind fun _ =>
  loadTop.bind fun prev =>
  (morecorePagesCode (size / pageSize + 1)).bind fun _ => .ret prev

/-! ## `mm_kmalloc` -/

def firstFitCode (total : Nat) : Nat → Nat → HeapCode Nat
  | 0, _ => .stuck
  | fuel + 1, item =>
    if item = 0 then .ret 0
    else
      (loadMem (itemUsed · item)).bind fun used =>
        if used ≠ 0 then (loadMem (itemNext · item)).bind (firstFitCode total fuel)
        else (loadMem (itemSize · item)).bind fun size =>
          if total ≤ size then .ret item
          else (loadMem (itemNext · item)).bind (firstFitCode total fuel)

def searchFitCode (total : Nat) : HeapCode Nat :=
  loadTop.bind fun top => if top ≠ 0 then firstFitCode total walkFuel heapBase else .ret 0

def carveRestCode (newItem tmp total : Nat) : HeapCode Unit :=
  (loadMem (itemSize · newItem)).bind fun size =>
  (storeMem (setSize · tmp ((size + 2 ^ 32 - total) % 2 ^ 32))).bind fun _ =>
  (storeMem (setUsed · tmp 0)).bind fun _ =>
  (loadMem (itemNext · newItem)).bind fun next => storeMem (setNext · tmp next)

def growRestCode (tmp total : Nat) : HeapCode Unit :=
  (storeMem (setSize · tmp (pageRest total))).bind fun _ =>
  (storeMem (setUsed · tmp 0)).bind fun _ => storeMem (setNext · tmp 0)

def placeItemCode (newItem tmp size : Nat) : HeapCode Nat :=
  (storeMem (setSize · newItem size)).bind fun _ =>
  (storeMem (setUsed · newItem 1)).bind fun _ =>
  (storeMem (setNext · newItem tmp)).bind fun _ => .ret ((newItem + itemSizeof) % 2 ^ 32)

def kmallocBody (size : Nat) : HeapCode Nat :=
  (searchFitCode (totalSize size)).bind fun newItem =>
    if newItem ≠ 0 then
      let tmp := (newItem + totalSize size) % 2 ^ 32
      (carveRestCode newItem tmp (totalSize size)).bind fun _ => placeItemCode newItem tmp size
    else
      (morecoreCode (totalSize size)).bind fun newItem =>
        if newItem = 0 then .ret 0
        else
          let tmp := (newItem + totalSize size) % 2 ^ 32
          (growRestCode tmp (totalSize size)).bind fun _ => placeItemCode newItem tmp size

/-! ## The monitor -/

inductive HeapCall where
  | kmalloc (size : Nat)
  | kfree (address : Nat)
deriving DecidableEq

/-- The sanity checks come before the lock. A client writes one byte at a time. -/
def heapMonitor : Monitor ProcessHeap HeapCall Nat (Nat × Byte) where
  early
    | .kmalloc size => if size = 0 then some 0 else none
    | .kfree address => if address = 0 then some 0 else none
  body
    | .kmalloc size => kmallocBody size
    | .kfree address => kfreeBody address
  write u h := { h with mem := fill h.mem u.1 1 u.2 }

/-! ## The steps together -/

@[simp] theorem run_loadMem {ρ : Type} (f : Mem → ρ) (h : ProcessHeap) :
    (loadMem f).run h = some (h, f h.mem) := rfl

@[simp] theorem run_storeMem (f : Mem → Mem) (h : ProcessHeap) :
    (storeMem f).run h = some ({ h with mem := f h.mem }, ()) := rfl

@[simp] theorem run_loadTop (h : ProcessHeap) : loadTop.run h = some (h, h.top) := rfl

@[simp] theorem run_storeTop (top : Nat) (h : ProcessHeap) :
    (storeTop top).run h = some ({ h with top := top }, ()) := rfl

@[simp] theorem run_loadOfNext (f : Mem → Nat → Nat) (tmp : Nat) (h : ProcessHeap) :
    (loadOfNext f tmp).run h = some (h, f h.mem (itemNext h.mem tmp)) := rfl

theorem findItemCode_run (item : Nat) : ∀ (fuel tmp : Nat) (h : ProcessHeap),
    (findItemCode item fuel tmp).run h = (findItem h.mem item fuel tmp).map fun found => (h, found) := by
  intro fuel
  induction fuel with
  | zero => intro tmp h; rfl
  | succ fuel ih =>
    intro tmp h
    rw [findItemCode, findItem]
    split
    · rfl
    split
    · rfl
    · simp [ih]

theorem mergeTest_run (tmp : Nat) (h : ProcessHeap) : (mergeTest tmp).run h =
    some (h, decide (itemUsed h.mem tmp = 0 ∧ itemNext h.mem tmp ≠ 0 ∧
      itemUsed h.mem (itemNext h.mem tmp) = 0)) := by
  by_cases h1 : itemUsed h.mem tmp = 0
  · by_cases h2 : itemNext h.mem tmp = 0
    · simp [mergeTest, h1, h2]
    · simp [mergeTest, h1, h2]
  · simp [mergeTest, h1]

theorem mergeNextCode_run (tmp : Nat) : ∀ (fuel : Nat) (h : ProcessHeap),
    (mergeNextCode tmp fuel).run h = (mergeNext tmp fuel h.mem).map fun m => ({ h with mem := m }, ()) := by
  intro fuel
  induction fuel with
  | zero => intro h; rfl
  | succ fuel ih =>
    intro h
    rw [mergeNextCode, mergeNext, Code.run_bind, mergeTest_run]
    split
    case isTrue hboth =>
      simp only [Option.bind_some, decide_eq_true hboth, if_true, Code.run_bind, run_loadMem, run_loadOfNext,
        run_storeMem, ih]
    case isFalse hboth => simp [decide_eq_false hboth]

theorem coalesceFromCode_run : ∀ (fuel tmp : Nat) (h : ProcessHeap),
    (coalesceFromCode fuel tmp).run h = (coalesceFrom fuel tmp h.mem).map fun m =>
      ({ h with mem := m }, ()) := by
  intro fuel
  induction fuel with
  | zero => intro tmp h; rfl
  | succ fuel ih =>
    intro tmp h
    rw [coalesceFromCode, coalesceFrom]
    split
    · rfl
    · rw [Code.run_bind, mergeNextCode_run]
      generalize mergeNext tmp walkFuel h.mem = r
      cases r with
      | none => simp
      | some m => simp [ih]

theorem kfreeFound_run (item fuel : Nat) (h : ProcessHeap) (r : Option Bool) :
    ((r.map fun found => (h, found)).bind fun p => ((fun found =>
      if found then
        (storeMem (setUsed · item 0)).bind fun _ => (coalesceFromCode fuel heapBase).bind fun _ => .ret 0
      else .ret 0) p.2 : HeapCode Nat).run p.1) =
    (r.bind fun found =>
      if found then (coalesceFrom fuel heapBase (setUsed h.mem item 0)).map fun m => { h with mem := m }
      else some h).map fun h' => (h', 0) := by
  cases r with
  | none => rfl
  | some found =>
    cases found with
    | false => rfl
    | true =>
      simp only [Option.map_some, Option.bind_some, if_true, Code.run_bind, run_storeMem,
        coalesceFromCode_run]
      cases coalesceFrom fuel heapBase (setUsed h.mem item 0) with
      | none => rfl
      | some m => rfl

theorem kfreeBody_run {address : Nat} (h0 : address ≠ 0) (h : ProcessHeap) :
    (kfreeBody address).run h = (mmKfree h address).map fun h' => (h', 0) := by
  rw [kfreeBody, mmKfree, if_neg h0, Code.run_bind, findItemCode_run]
  exact kfreeFound_run _ _ _ _

-- A goal about it is not to be evaluated: the search has `2 ^ 32` steps of fuel.
attribute [irreducible] kfreeBody

theorem fill_zero (m : Mem) (a : Nat) (b : Byte) : fill m a 0 b = m := by
  funext x
  rw [fill, if_neg (by omega)]

theorem fill_succ (m : Mem) (a n : Nat) (b : Byte) :
    fill (fill m a 1 b) (a + 1) n b = fill m a (n + 1) b := by
  funext x
  unfold fill
  split
  · rw [if_pos (by omega)]
  · split
    · rw [if_pos (by omega)]
    · rw [if_neg (by omega)]

theorem memsetCode_run (n : Nat) : ∀ (a : Nat) (h : ProcessHeap),
    (memsetCode a n).run h = some ({ h with mem := fill h.mem a n 0 }, ()) := by
  induction n with
  | zero => intro a h; rw [fill_zero]; rfl
  | succ n ih => intro a h; simp [memsetCode, ih, fill_succ]

theorem morecorePagesCode_run (pages : Nat) : ∀ h : ProcessHeap,
    (morecorePagesCode pages).run h = some (morecorePages pages h, ()) := by
  induction pages with
  | zero => intro h; rfl
  | succ pages ih => intro h; simp [morecorePagesCode, morecorePages, memsetCode_run, ih]

theorem morecoreCode_run (size : Nat) (h : ProcessHeap) :
    (morecoreCode size).run h = some (mmMorecore h size) := by
  by_cases h0 : h.top = 0
  · simp [morecoreCode, morecorePagesCode_run, mmMorecore, prevTop, h0]
  · simp [morecoreCode, morecorePagesCode_run, mmMorecore, prevTop, h0]

theorem firstFitCode_run (total : Nat) : ∀ (fuel item : Nat) (h : ProcessHeap),
    (firstFitCode total fuel item).run h = (firstFit h.mem total fuel item).map fun r => (h, r) := by
  intro fuel
  induction fuel with
  | zero => intro item h; rfl
  | succ fuel ih =>
    intro item h
    rw [firstFitCode, firstFit]
    split
    · rfl
    · by_cases h1 : itemUsed h.mem item = 0
      · by_cases h2 : total ≤ itemSize h.mem item
        · simp [h1, h2]
        · simp [h1, h2, ih]
      · simp [h1, ih]

theorem searchFitCode_run (total : Nat) (h : ProcessHeap) :
    (searchFitCode total).run h = (searchFit h total).map fun r => (h, r) := by
  by_cases h0 : h.top = 0
  · simp [searchFitCode, searchFit, h0]
  · simp [searchFitCode, searchFit, h0, firstFitCode_run]

theorem carveRestCode_run (newItem tmp total : Nat) (h : ProcessHeap) :
    (carveRestCode newItem tmp total).run h =
      some ({ h with mem := carveRest h.mem newItem tmp total }, ()) := by
  simp [carveRestCode, carveRest]

theorem growRestCode_run (tmp total : Nat) (h : ProcessHeap) :
    (growRestCode tmp total).run h = some ({ h with mem := growRest h.mem tmp total }, ()) := by
  simp [growRestCode, growRest]

theorem placeItemCode_run (newItem tmp size : Nat) (h : ProcessHeap) :
    (placeItemCode newItem tmp size).run h =
    some ({ h with mem := placeItem h.mem newItem tmp size }, (newItem + itemSizeof) % 2 ^ 32) := by
  simp [placeItemCode, placeItem]

theorem kmallocBody_run {size : Nat} (h0 : size ≠ 0) (h : ProcessHeap) :
    (kmallocBody size).run h = mmKmalloc h size := by
  rw [kmallocBody, mmKmalloc, if_neg h0, Code.run_bind, searchFitCode_run]
  generalize searchFit h (totalSize size) = r
  cases r with
  | none => simp
  | some newItem =>
    simp only [Option.map_some, Option.bind_some]
    split
    · simp [carveRestCode_run, placeItemCode_run]
    · rw [Code.run_bind, morecoreCode_run, Option.bind_some]
      split
      · rfl
      · simp [growRestCode_run, placeItemCode_run]

end SystemProjects.Heap
