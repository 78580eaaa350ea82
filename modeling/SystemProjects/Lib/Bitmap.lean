import SystemProjects.Lib.Memory

/-!
# Bitmaps

One bit for each number. Bit 0 is the most significant bit of byte 0.
-/

open SystemProjects.Memory

namespace SystemProjects.Bitmap

/-- The bit of `i` in its byte. -/
def mask (i : Nat) : Byte := 1#8 <<< (8 - i % 8 - 1)

def isSet (bm : Mem) (i : Nat) : Bool := (bm (i / 8)).getLsbD (8 - i % 8 - 1)

def setBit (bm : Mem) (i : Nat) : Mem :=
  fun x => if x = i / 8 then bm x ||| mask i else bm x

def clearBit (bm : Mem) (i : Nat) : Mem :=
  fun x => if x = i / 8 then bm x &&& ~~~mask i else bm x

theorem mask_getLsbD (i k : Nat) : (mask i).getLsbD k = decide (k = 8 - i % 8 - 1) := by
  rw [mask, BitVec.getLsbD_shiftLeft, BitVec.getLsbD_one, Bool.eq_iff_iff]
  simp only [Bool.and_eq_true, Bool.not_eq_true', decide_eq_true_eq, decide_eq_false_iff_not]
  omega

theorem bit_inj {i j : Nat} (h : i / 8 = j / 8) (h' : 8 - i % 8 - 1 = 8 - j % 8 - 1) : i = j := by
  omega

@[simp] theorem isSet_setBit (bm : Mem) (i j : Nat) :
    isSet (setBit bm i) j = (decide (j = i) || isSet bm j) := by
  unfold isSet setBit
  by_cases hbyte : j / 8 = i / 8
  · rw [if_pos hbyte, BitVec.getLsbD_or, mask_getLsbD, Bool.or_comm]
    congr 1
    rw [decide_eq_decide]
    exact ⟨fun h => bit_inj hbyte h, fun h => by rw [h]⟩
  · have hne : j ≠ i := fun h => hbyte (by rw [h])
    simp [hbyte, hne]

@[simp] theorem isSet_clearBit (bm : Mem) (i j : Nat) :
    isSet (clearBit bm i) j = (!decide (j = i) && isSet bm j) := by
  unfold isSet clearBit
  by_cases hbyte : j / 8 = i / 8
  · have hlt : 8 - j % 8 - 1 < 8 := by omega
    rw [if_pos hbyte, BitVec.getLsbD_and, BitVec.getLsbD_not, mask_getLsbD, Bool.and_comm]
    congr 1
    simp only [hlt, decide_true, Bool.true_and]
    congr 1
    rw [decide_eq_decide]
    exact ⟨fun h => bit_inj hbyte h, fun h => by rw [h]⟩
  · have hne : j ≠ i := fun h => hbyte (by rw [h])
    simp [hbyte, hne]

theorem byte_eq_of_isSet {bm bm' : Mem} {i : Nat} (h : ∀ x, x / 8 = i → isSet bm x = isSet bm' x) :
    bm i = bm' i := by
  apply BitVec.eq_of_getLsbD_eq
  intro k hk
  have hbit := h (8 * i + (7 - k)) (by omega)
  unfold isSet at hbit
  rwa [show (8 * i + (7 - k)) / 8 = i by omega, show 8 - (8 * i + (7 - k)) % 8 - 1 = k by omega] at hbit

theorem isSet_eq_iff {bm bm' : Mem} {n : Nat} :
    (∀ x < n * 8, isSet bm x = isSet bm' x) ↔ ∀ i < n, bm i = bm' i := by
  constructor
  · intro h i hi
    exact byte_eq_of_isSet fun x hx => h x (by omega)
  · intro h x hx
    rw [isSet, isSet, h _ (by omega)]

theorem and_mask_eq_zero (b : Byte) (i : Nat) : b &&& mask i = 0 ↔ b.getLsbD (8 - i % 8 - 1) = false := by
  constructor
  · intro h
    have hbit := congrArg (fun v : Byte => v.getLsbD (8 - i % 8 - 1)) h
    simpa [mask_getLsbD] using hbit
  · intro h
    apply BitVec.eq_of_getLsbD_eq
    intro k _
    rw [BitVec.getLsbD_and, mask_getLsbD]
    by_cases hk : k = 8 - i % 8 - 1
    · simp [hk, h]
    · simp [hk]

end SystemProjects.Bitmap
