import SystemProjects.Fat.Search

/-!
# Updating an entry
-/

open SystemProjects.Memory

namespace SystemProjects.Fat

variable {v v' : Volume} {file file' : FatFile} {c : Int} {i j : Nat} {block : Mem} {ret : Int}

/-! ## What is claimed -/

/-- The entry in slot `j` of a cluster. -/
def slotAt (v : Volume) (c : Int) (j : Nat) : FatEntry := (entryOf (v.data c) j).copy

/-- The first slot with the end mark. -/
structure EndMark (v : Volume) (c : Int) (i : Nat) : Prop where
  slot : i < v.slots
  mark : (slotAt v c i).name0 = 0
  first : ∀ j < i, (slotAt v c j).name0 ≠ 0

/-- The entry is stored in the slot with the end mark, and the end mark in the next one. -/
structure StoredAtEnd (v v' : Volume) (file file' : FatFile) (i : Nat) : Prop where
  index : file'.dirIndex = some i
  cluster : v' = v.setData file.dirCluster (v'.data file.dirCluster)
  wasEnd : EndMark v file.dirCluster i
  entry : slotAt v' file.dirCluster i = file.entry.copy
  next : i + 1 < v.slots ∧ (slotAt v' file.dirCluster (i + 1)).name0 = 0
  others : ∀ j, j ≠ i → j ≠ i + 1 → slotAt v' file.dirCluster j = slotAt v file.dirCluster j

/-- The entry is stored in slot `i`, and nothing else changes. -/
structure StoredAt (v v' : Volume) (file : FatFile) (i : Nat) : Prop where
  cluster : v' = v.setData file.dirCluster (v'.data file.dirCluster)
  slot : i < v.slots
  entry : slotAt v' file.dirCluster i = file.entry.copy
  others : ∀ j, j ≠ i → slotAt v' file.dirCluster j = slotAt v file.dirCluster j

def UpdateStores (v : Volume) (file : FatFile) : Prop :=
  ∃ v' file' ret, fatUpdateFileEntry v file = some (v', file', ret) ∧
    match file.dirIndex with
    | none => ret = SUCCESS ∧ (∃ i, StoredAtEnd v v' file file' i) ∨ ret = FAIL ∧ v' = v
    | some i => ret = SUCCESS ∧ StoredAt v v' file i

/-- The index is one of the cluster. Without an index, there is a slot with `name[0] = 0` that is not of size -1, and
the first one is the end mark or the last slot. -/
def UpdateOk (v : Volume) (file : FatFile) : Prop :=
  match file.dirIndex with
  | none => ∃ i, endSlot v file.dirCluster = some i ∧ (EndMark v file.dirCluster i ∨ i + 1 = v.slots)
  | some i => i < v.slots

/-! ## Both kinds of update -/

@[simp] theorem slotAt_setData : slotAt (v.setData c block) c j = (entryOf block j).copy := by
  unfold slotAt Volume.setData
  simp

@[simp] theorem data_setData : (v.setData c block).data c = block := if_pos rfl

/-- **Entry updates.** An entry is stored where it should be, or nothing is and the update says so, just when there is
a slot for it and no end mark has been skipped. -/
theorem fatUpdateFileEntry_stores_iff (v : Volume) (file : FatFile) : UpdateStores v file ↔
    UpdateOk v file := by
  unfold UpdateStores UpdateOk
  cases hindex : file.dirIndex with
  | some i =>
    dsimp only
    constructor
    · rintro ⟨v', file', ret, -, -, hstored⟩
      exact hstored.slot
    · intro hi
      refine ⟨_, _, _, fatUpdateFileEntry_index file hindex hi, rfl, ⟨?_, hi, ?_, fun j hj => ?_⟩⟩
      · rw [data_setData]
      · rw [slotAt_setData, copy_entryOf_memcpy_self]
      · rw [slotAt_setData, copy_entryOf_memcpy hj]
        rfl
  | none =>
    dsimp only
    cases hend : endSlot v file.dirCluster with
    | none =>
      rw [fatUpdateFileEntry_no_end file hindex hend]
      simp
    | some i =>
      have hslot := (endSlot_eq_some hend).1
      by_cases hi : i + 1 < v.slots
      · rw [fatUpdateFileEntry_free file hindex hend hi]
        constructor
        · rintro ⟨v', file', ret, heq, ⟨-, k, hstored⟩ | ⟨rfl, -⟩⟩
          · obtain ⟨-, rfl, -⟩ : _ = v' ∧ _ = file' ∧ SUCCESS = ret := by simpa using heq
            obtain rfl := Option.some.inj hstored.index
            exact ⟨i, rfl, .inl hstored.wasEnd⟩
          · simp [SUCCESS, FAIL] at heq
        · rintro ⟨k, hk, hmark | hlast⟩
          · obtain rfl := Option.some.inj hk
            refine ⟨_, _, _, rfl, .inl ⟨rfl, i, rfl, ?_, hmark, ?_, ⟨hi, ?_⟩, fun j hj hj' => ?_⟩⟩
            · rw [data_setData]
            · rw [slotAt_setData, appendBlock_self]
            · rw [slotAt_setData, appendBlock_next]
            · rw [slotAt_setData, appendBlock_other hj hj']
              rfl
          · have := Option.some.inj hk
            omega
      · rw [fatUpdateFileEntry_last file hindex hend (by omega)]
        refine iff_of_true ⟨_, _, _, rfl, .inr ⟨rfl, rfl⟩⟩ ⟨i, rfl, .inr (by omega)⟩

/-- A new entry for a directory without an end mark goes past its cluster. -/
theorem fullVolume_no_end : ¬ ∀ (v : Volume) (file : FatFile), UpdateStores v file := by
  intro h
  obtain ⟨v', file', ret, hupdate, -⟩ :=
    h fullVolume { entry := newEntry [0x47] 0x20 0 0, dirCluster := 2, dirIndex := none, currentPos := 0 }
  have hnone : fatUpdateFileEntry fullVolume
      { entry := newEntry [0x47] 0x20 0 0, dirCluster := 2, dirIndex := none, currentPos := 0 } = none :=
    fatUpdateFileEntry_no_end _ rfl (by decide)
  rw [hnone] at hupdate
  contradiction

end SystemProjects.Fat
