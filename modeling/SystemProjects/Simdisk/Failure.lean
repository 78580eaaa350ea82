import SystemProjects.Simdisk.Proofs

/-!
# When there is nothing left

The scan never gets past the first byte of a map, so the limit that it is tested against is out of reach.
-/

open SystemProjects.Memory SystemProjects.Bitmap

namespace SystemProjects.Simdisk

variable {d : Device}

/-! ## What is claimed -/

def dataBlocks : Nat := 102400 - blockTableStart

def Exhausted (d : Device) : Call → Prop
  | .getBlock _ => ∀ x < dataBlocks, isSet (blockMap d) x = true
  | .getInode _ => ∀ x < maxFileNum, isSet (inodeMap d) x = true

/-- The call stays inside its buffer. It fails exactly when there is nothing left, and then it changes nothing. -/
def FailsRight (d : Device) (c : Call) : Prop :=
  ∃ d' r, step d c = some (d', r) ∧ (r = -1 ↔ Exhausted d c) ∧ (r = -1 → d' = d)

/-! ## Calls -/

theorem scanBit_le (bitb : Byte) : scanBit bitb ≤ 8 := by
  unfold scanBit
  cases h : (List.range 8).find? fun k => ~~~(bitb.setWidth 32 <<< k) &&& 0x80#32 ≠ 0 with
  | none => exact Nat.le_refl 8
  | some k =>
    have hmem := List.mem_of_find?_eq_some h
    exact Nat.le_of_lt (List.mem_range.mp hmem)

/-- The number comes from the first byte of the map, whatever is free. -/
theorem acquire_number {start : Nat} (stop table limit : Nat) (bits : Mem) (hstop : start < stop)
    (hdev : start < d.devsize) (hlimit : 8 + table < limit) (hmap : 8 + table < blocksize * 8) :
    ∃ d', acquire start stop table limit d bits =
      some (d', ((scanBit (mapAt start d 0) + table : Nat) : Int)) := by
  have hle := scanBit_le (mapAt start d 0)
  obtain ⟨d', h, -⟩ := acquire_spec stop table limit bits hstop hdev rfl (by omega) (by omega)
  exact ⟨d', h⟩

theorem step_number (hd : d.devsize = 102400) (c : Call) :
    ∃ d' n, step d c = some (d', ((n : Nat) : Int)) := by
  cases c with
  | getBlock bits =>
    obtain ⟨d', h⟩ := acquire_number (d := d) inodeMapStart blockTableStart 102400 bits
      (by decide : blockMapStart < inodeMapStart) (by rw [hd]; decide) (by decide) (by decide)
    exact ⟨d', _, h⟩
  | getInode bits =>
    obtain ⟨d', h⟩ := acquire_number (d := d) inodeTableStart inodeTableStart maxFileNum bits
      (by decide : inodeMapStart < inodeTableStart) (by rw [hd]; decide) (by decide) (by decide)
    exact ⟨d', _, h⟩

/-- **Running out.** A call fails right exactly when there is something left. -/
theorem failsRight_iff (d : Device) (hd : d.devsize = 102400) (c : Call) : FailsRight d c ↔
    ¬ Exhausted d c := by
  obtain ⟨d', n, h⟩ := step_number hd c
  have hne : (n : Int) ≠ -1 := by omega
  constructor
  · rintro ⟨d1, r, h1, hiff, -⟩ hall
    obtain ⟨rfl, rfl⟩ := Prod.mk.inj (Option.some.inj (h.symm.trans h1))
    exact hne (hiff.mpr hall)
  · intro hleft
    exact ⟨d', n, h, iff_of_false hne hleft, fun hr => absurd hr hne⟩

def uniformDisk (b : Byte) : Device :=
  { file := fun _ => b, stSize := 102400 * blocksize, isOpen := true, devsize := 102400 }

theorem uniformDisk_failsRight : FailsRight (uniformDisk 0) (.getInode fun _ => 0) := by
  refine (failsRight_iff (uniformDisk 0) rfl (.getInode fun _ => 0)).mpr fun hall => ?_
  exact absurd (hall 0 (by decide)) (by decide)

/-- With every bit set, both calls still return a number. -/
theorem fullDisk_not_failsRight :
    ¬ FailsRight (uniformDisk 0xff) (.getBlock fun _ => 0) ∧
      ¬ FailsRight (uniformDisk 0xff) (.getInode fun _ => 0) := by
  have hset : ∀ x, isSet (fun _ => (0xff : Byte)) x = true := by
    intro x
    have hones : ∀ k < 8, (0xff : Byte).getLsbD k = true := by decide
    exact hones _ (by omega)
  have hnot : ∀ c, Exhausted (uniformDisk 0xff) c → ¬ FailsRight (uniformDisk 0xff) c := by
    rintro c hall ⟨d1, r, h1, hiff, -⟩
    obtain ⟨d', n, h⟩ := step_number (d := uniformDisk 0xff) rfl c
    obtain ⟨-, rfl⟩ := Prod.mk.inj (Option.some.inj (h.symm.trans h1))
    have := hiff.mpr hall
    omega
  exact ⟨hnot _ fun x _ => hset x, hnot _ fun x _ => hset x⟩

end SystemProjects.Simdisk
