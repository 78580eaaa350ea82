import SystemProjects.Dfs.Code
import SystemProjects.Fat.Listing

/-!
# Listing the devices

A write past the 32 slots has no outcome, and neither has `NULL->name`.
-/

open SystemProjects.Memory SystemProjects.Fat

namespace SystemProjects.Dfs

variable {τ : Type} {devices : List (DfsEntry τ)} {device : DfsEntry τ} {i k : Nat} {name : Name}

/-! ## The code -/

def vfsNamesize : Nat := 32

def vfsDevice : Int := 2

def dot : Name := [0x2E]

/-- Copies `n` bytes, with `NUL`s after the end of the string. -/
def strncpy (dst : Mem) (src : Name) (n : Nat) : Mem := fun x => if x < n then src[x]?.getD 0 else dst x

def setSlot (entry : Nat → DirlistEntry) (i : Nat) (name : Name) (n : Nat) (attributes : Int) :
    Nat → DirlistEntry := fun x =>
  if x = i then { name := strncpy (entry i).name name n, attributes := attributes, size := 0 } else entry x

/-- The loop, with `count` devices left by the first loop's count. -/
def listFrom : List (DfsEntry τ) → Int → Nat → (Nat → DirlistEntry) → Option (Nat → DirlistEntry)
  | [], count, _, entry => if count > 0 then none else some entry
  | device :: prev, count, i, entry =>
    if i < 32 then listFrom prev (count - 1) (i + 1) (setSlot entry i device.name vfsNamesize vfsDevice)
    else none

def dfsList (devices : List (DfsEntry τ)) : Option (Option (Nat → DirlistEntry)) :=
  let count := devices.length
  if count = 0 then some none
  else
    let entry := fun _ => zeroDirlistEntry
    let entry := setSlot entry 0 dot 2 vfsDirectory
    let entry := setSlot entry 1 (dot ++ dot) 2 vfsDirectory
    (listFrom devices count 2 entry).map some

/-! ## What a listing shows -/

/-- The name in a slot, which ends with the field if there is no `NUL`. -/
def readName (name : Mem) : Name := ((List.range vfsNamesize).map name).takeWhile fun b => b ≠ 0

/-- The names of the two directories, and of the devices as far as they fit a slot. -/
def shown (devices : List (DfsEntry τ)) : List Name :=
  dot :: (dot ++ dot) :: devices.map fun device => device.name.take vfsNamesize

structure Lists (devices : List (DfsEntry τ)) (entry : Nat → DirlistEntry) : Prop where
  names : (List.range (devices.length + 2)).map (fun i => readName (entry i).name) = shown devices
  attributes : ∀ i < devices.length, (entry (i + 2)).attributes = vfsDevice
  rest : ∀ i, devices.length + 2 ≤ i → entry i = zeroDirlistEntry

/-! ## The loop -/

theorem setSlot_self (entry : Nat → DirlistEntry) (i : Nat) (name : Name) (n : Nat) (attributes : Int) :
    setSlot entry i name n attributes i =
      { name := strncpy (entry i).name name n, attributes := attributes, size := 0 } := if_pos rfl

theorem setSlot_other {x : Nat} (entry : Nat → DirlistEntry) (h : x ≠ i) (name : Name) (n : Nat)
    (attributes : Int) :
    setSlot entry i name n attributes x = entry x := if_neg h

/-- Both conditions of the loop end it at the same time, and slot `i + k` is that of device `k`. -/
theorem listFrom_spec (entry : Nat → DirlistEntry) (h : i + devices.length ≤ 32) :
    ∃ entry', listFrom devices devices.length i entry = some entry' ∧
      (∀ k, (hk : k < devices.length) → entry' (i + k) =
        { name := strncpy (entry (i + k)).name devices[k].name vfsNamesize, attributes := vfsDevice, size := 0 }) ∧
      ∀ x, x < i ∨ i + devices.length ≤ x → entry' x = entry x := by
  induction devices generalizing i entry with
  | nil => exact ⟨entry, rfl, fun k hk => absurd hk (Nat.not_lt_zero k), fun x _ => rfl⟩
  | cons device prev ih =>
    rw [List.length_cons] at h
    obtain ⟨entry', hlist, hslots, hothers⟩ :=
      ih (setSlot entry i device.name vfsNamesize vfsDevice) (i := i + 1) (by omega)
    have hcount : ((device :: prev).length : Int) - 1 = prev.length := by
      rw [List.length_cons]
      omega
    refine ⟨entry', ?_, fun k hk => ?_, fun x hx => ?_⟩
    · rw [listFrom, if_pos (by omega), hcount, hlist]
    · cases k with
      | zero => rw [Nat.add_zero, hothers i (by omega), setSlot_self, List.getElem_cons_zero]
      | succ k =>
        have hk' : k < prev.length := Nat.lt_of_succ_lt_succ hk
        rw [← Nat.add_assoc, Nat.add_right_comm, hslots k hk', setSlot_other _ (by omega),
          List.getElem_cons_succ]
    · rw [List.length_cons] at hx
      rw [hothers x (by omega), setSlot_other _ (by omega)]

/-- The loop has no bound of its own: with no room for all devices it goes on past the slots. -/
theorem listFrom_overflow (count : Int) (entry : Nat → DirlistEntry) (hi : i ≤ 32)
    (h : 32 < i + devices.length) :
    listFrom devices count i entry = none := by
  induction devices generalizing i count entry with
  | nil => simp at h; omega
  | cons device prev ih =>
    rw [List.length_cons] at h
    rw [listFrom]
    split
    · exact ih _ _ (by omega) (by omega)
    · rfl

theorem dfsList_overflow (h : 30 < devices.length) : dfsList devices = none := by
  simp only [dfsList]
  rw [if_neg (by omega), listFrom_overflow _ _ (by omega) (by omega), Option.map_none]

/-! ## The names -/

theorem map_range_getD (l : Name) (m : Nat) :
    (List.range m).map (fun x => l[x]?.getD 0) = l.take m ++ List.replicate (m - l.length) 0 := by
  apply List.ext_getElem
  · simp only [List.length_map, List.length_range, List.length_append, List.length_take,
      List.length_replicate]
    omega
  · intro x hx hx'
    simp only [List.length_map, List.length_range] at hx
    by_cases hl : x < l.length
    · rw [List.getElem_append_left (by rw [List.length_take]; omega)]
      simp [hl]
    · rw [List.getElem_append_right (by rw [List.length_take]; omega)]
      simp [hl]

theorem readName_strncpy (hstr : 0 ∉ name) {n : Nat} (hn : name.length ≤ n ∨ n = vfsNamesize) :
    readName (strncpy zeroDirlistEntry.name name n) = name.take vfsNamesize := by
  have hbytes : (List.range vfsNamesize).map (strncpy zeroDirlistEntry.name name n) =
      (List.range vfsNamesize).map fun x => name[x]?.getD 0 := by
    apply List.map_congr_left
    intro x hx
    rw [List.mem_range] at hx
    unfold strncpy
    split
    · rfl
    · rw [List.getElem?_eq_none (by omega)]
      rfl
  have hne : ∀ b ∈ name.take vfsNamesize, decide (b ≠ 0) = true := by
    intro b hb
    rw [decide_eq_true_eq]
    rintro rfl
    exact hstr (List.mem_of_mem_take hb)
  unfold readName
  rw [hbytes, map_range_getD, List.takeWhile_append_of_pos hne, List.takeWhile_replicate_eq_filter]
  simp

/-! ## The listing -/

theorem dfsList_nil : dfsList ([] : List (DfsEntry τ)) = some none := rfl

theorem dfsList_lists (hne : devices ≠ []) (h : devices.length ≤ 30)
    (hstr : ∀ device ∈ devices, 0 ∉ device.name) :
    ∃ entry, dfsList devices = some (some entry) ∧ Lists devices entry := by
  have hcount : devices.length ≠ 0 := fun h0 => hne (List.length_eq_zero_iff.mp h0)
  obtain ⟨entry, hlist, hslots, hothers⟩ := listFrom_spec
    (setSlot (setSlot (fun _ => zeroDirlistEntry) 0 dot 2 vfsDirectory) 1 (dot ++ dot) 2 vfsDirectory)
      (by omega : 2 + devices.length ≤ 32)
  have hself : readName (entry 0).name = dot := by
    rw [hothers 0 (by omega), setSlot_other _ (by omega), setSlot_self]
    exact readName_strncpy (by decide) (.inl (by decide))
  have hparent : readName (entry 1).name = dot ++ dot := by
    rw [hothers 1 (by omega), setSlot_self, setSlot_other _ (by omega)]
    exact readName_strncpy (by decide) (.inl (by decide))
  have hdevice : ∀ k, (hk : k < devices.length) →
      readName (entry (k + 2)).name = devices[k].name.take vfsNamesize := by
    intro k hk
    rw [Nat.add_comm, hslots k hk, setSlot_other _ (by omega), setSlot_other _ (by omega)]
    exact readName_strncpy (hstr _ (List.getElem_mem hk)) (.inr rfl)
  refine ⟨entry, ?_, ?_, fun i hi => ?_, fun i hi => ?_⟩
  · simp only [dfsList]
    rw [if_neg hcount, hlist, Option.map_some]
  · apply List.ext_getElem
    · simp [shown]
    · intro x hx hx'
      rw [List.getElem_map, List.getElem_range]
      match x with
      | 0 => exact hself
      | 1 => exact hparent
      | k + 2 =>
        have hk : k < devices.length := by simpa using hx
        simp only [shown, List.getElem_cons_succ, List.getElem_map]
        exact hdevice k hk
  · rw [Nat.add_comm, hslots i hi]
  · rw [hothers i (by omega), setSlot_other _ (by omega), setSlot_other _ (by omega)]

/-- With no device there is no listing, and otherwise `.` and `..` come before the devices. -/
theorem dfsList_spec (devices : List (DfsEntry τ)) (h : devices.length ≤ 30)
    (hstr : ∀ device ∈ devices, 0 ∉ device.name) :
    (devices = [] → dfsList devices = some none) ∧
      (devices ≠ [] → ∃ entry, dfsList devices = some (some entry) ∧ Lists devices entry) :=
  ⟨fun hnil => by rw [hnil, dfsList_nil], fun hne => dfsList_lists hne h hstr⟩

def console : DfsEntry Unit := { calltable := (), name := [0x63, 0x6F, 0x6E], type := 0 }

def serial : DfsEntry Unit := { calltable := (), name := [0x63, 0x6F, 0x6D, 0x31], type := 0 }

theorem two_devices_listed : ∃ entry, dfsList [serial, console] = some (some entry) ∧
    Lists [serial, console] entry :=
  (dfsList_spec [serial, console] (by decide) (by decide)).2 (List.cons_ne_nil _ _)

theorem empty_registry_not_listed :
    ¬ ∃ entry, dfsList ([] : List (DfsEntry Unit)) = some (some entry) ∧
      Lists ([] : List (DfsEntry Unit)) entry := by
  rintro ⟨entry, h, -⟩
  rw [dfsList_nil] at h
  cases h

end SystemProjects.Dfs
