import Mathlib.Algebra.Group.Int.Defs
import Mathlib.Algebra.Group.Nat.Defs

/-!
# Words, bytes and blocks

A memory gives a byte for every address. Words are stored low byte first.
-/

namespace SystemProjects

/-! ## Return codes and double words -/

def SUCCESS : Int := 0

def FAIL : Int := -1

/-- Pointers and `DWORD`s wrap at 32 bits. -/
def dword (n : Nat) : Nat := n % 2 ^ 32

/-- A `DWORD` put into an `int`. -/
def toInt (n : Nat) : Int := if n < 2 ^ 31 then n else (n : Int) - 2 ^ 32

end SystemProjects

namespace SystemProjects.Memory

abbrev Byte := BitVec 8

abbrev Mem := Nat → Byte

/-! ## Words -/

def load16 (m : Mem) (a : Nat) : Nat := (m a).toNat + 2 ^ 8 * (m (a + 1)).toNat

def load32 (m : Mem) (a : Nat) : Nat :=
  (m a).toNat + 2 ^ 8 * (m (a + 1)).toNat + 2 ^ 16 * (m (a + 2)).toNat + 2 ^ 24 * (m (a + 3)).toNat

def store32 (m : Mem) (a v : Nat) : Mem := fun x =>
  if x = a then BitVec.ofNat 8 v
  else if x = a + 1 then BitVec.ofNat 8 (v / 2 ^ 8)
  else if x = a + 2 then BitVec.ofNat 8 (v / 2 ^ 16)
  else if x = a + 3 then BitVec.ofNat 8 (v / 2 ^ 24)
  else m x

theorem load32_lt (m : Mem) (a : Nat) : load32 m a < 2 ^ 32 := by
  have h0 := (m a).isLt
  have h1 := (m (a + 1)).isLt
  have h2 := (m (a + 2)).isLt
  have h3 := (m (a + 3)).isLt
  unfold load32
  omega

theorem load32_congr {m m' : Mem} {a : Nat} (h : ∀ x, a ≤ x → x < a + 4 → m x = m' x) :
    load32 m a = load32 m' a := by
  unfold load32
  rw [h a (by omega) (by omega), h (a + 1) (by omega) (by omega), h (a + 2) (by omega) (by omega),
    h (a + 3) (by omega) (by omega)]

theorem store32_other {m : Mem} {a v x : Nat} (h : x < a ∨ a + 4 ≤ x) : store32 m a v x = m x := by
  unfold store32
  rw [if_neg (by omega), if_neg (by omega), if_neg (by omega), if_neg (by omega)]

theorem load32_store32 (m : Mem) (a v : Nat) : load32 (store32 m a v) a = v % 2 ^ 32 := by
  have e0 : store32 m a v a = BitVec.ofNat 8 v := by simp [store32]
  have e1 : store32 m a v (a + 1) = BitVec.ofNat 8 (v / 2 ^ 8) := by simp [store32]
  have e2 : store32 m a v (a + 2) = BitVec.ofNat 8 (v / 2 ^ 16) := by simp [store32]
  have e3 : store32 m a v (a + 3) = BitVec.ofNat 8 (v / 2 ^ 24) := by simp [store32]
  rw [load32, e0, e1, e2, e3]
  simp only [BitVec.toNat_ofNat]
  omega

theorem load32_store32_other {m : Mem} {a b v : Nat} (h : b + 4 ≤ a ∨ a + 4 ≤ b) :
    load32 (store32 m a v) b = load32 m b :=
  load32_congr fun _ _ _ => store32_other (by omega)

/-! ## Ranges -/

/-- `n` bytes from `a` set to `b`. -/
def fill (m : Mem) (a n : Nat) (b : Byte) : Mem := fun x => if a ≤ x ∧ x < a + n then b else m x

theorem fill_other {m : Mem} {a n x : Nat} {b : Byte} (h : x < a ∨ a + n ≤ x) :
    fill m a n b x = m x := by
  rw [fill, if_neg (by omega)]

/-- `n` bytes of `src` put at `a`. -/
def memcpy (dst : Mem) (a : Nat) (src : Mem) (n : Nat) : Mem := fun x =>
  if a ≤ x ∧ x < a + n then src (x - a) else dst x

theorem memcpy_other {dst src : Mem} {a n x : Nat} (h : x < a ∨ a + n ≤ x) :
    memcpy dst a src n x = dst x := by
  rw [memcpy, if_neg (by omega)]

theorem memcpy_self {dst src : Mem} {a n x : Nat} (h : x < n) : memcpy dst a src n (a + x) = src x := by
  rw [memcpy, if_pos (by omega), Nat.add_sub_cancel_left]

/-- The two memories hold the same bytes from `a` up to `b`. -/
def Agree (m m' : Mem) (a b : Nat) : Prop := ∀ x, a ≤ x → x < b → m x = m' x

theorem Agree.load32 {m m' : Mem} {a b x : Nat} (h : Agree m m' a b) (ha : a ≤ x) (hb : x + 4 ≤ b) :
    load32 m x = load32 m' x :=
  load32_congr fun y _ _ => h y (by omega) (by omega)

theorem Agree.trans {m m' m'' : Mem} {a b : Nat} (h : Agree m m' a b) (h' : Agree m' m'' a b) :
    Agree m m'' a b :=
  fun x hx hx' => (h x hx hx').trans (h' x hx hx')

end SystemProjects.Memory

/-! ## Bytes that lie in a sequence of blocks

Each block holds `size` bytes. Byte `a` of the sequence is in the block at index `a / size`. -/

namespace SystemProjects.Blocks

open SystemProjects.Memory

variable {α : Type*} {size a : Nat} {data data' : α → Mem} {b : α} {bs cs : List α}

def byteAt (size : Nat) (data : α → Mem) (bs : List α) (a : Nat) : Option Byte :=
  (bs[a / size]?).map fun b => data b (a % size)

theorem byteAt_cons_lt (h : a < size) : byteAt size data (b :: bs) a = some (data b a) := by
  rw [byteAt, Nat.div_eq_of_lt h, Nat.mod_eq_of_lt h]
  rfl

theorem byteAt_cons_ge (h0 : 0 < size) (h : size ≤ a) :
    byteAt size data (b :: bs) a = byteAt size data bs (a - size) := by
  obtain ⟨a, rfl⟩ := Nat.exists_eq_add_of_le h
  rw [byteAt, byteAt, Nat.add_sub_cancel_left, Nat.add_div_left a h0, Nat.add_mod_left,
    List.getElem?_cons_succ]

theorem byteAt_append_lt (h0 : 0 < size) (h : a < bs.length * size) :
    byteAt size data (bs ++ cs) a = byteAt size data bs a := by
  rw [byteAt, byteAt, List.getElem?_append_left ((Nat.div_lt_iff_lt_mul h0).mpr h)]

theorem byteAt_append_ge (h0 : 0 < size) (h : bs.length * size ≤ a) :
    byteAt size data (bs ++ cs) a = byteAt size data cs (a - bs.length * size) := by
  obtain ⟨a, rfl⟩ := Nat.exists_eq_add_of_le h
  rw [byteAt, byteAt, Nat.add_sub_cancel_left, Nat.mul_comm bs.length, Nat.mul_add_div h0,
    Nat.mul_add_mod, List.getElem?_append_right (Nat.le_add_right ..), Nat.add_sub_cancel_left]

theorem byteAt_congr (h0 : 0 < size) (h : ∀ b ∈ bs, ∀ x < size, data' b x = data b x) :
    byteAt size data' bs a = byteAt size data bs a := by
  rw [byteAt, byteAt]
  cases hb : bs[a / size]? with
  | none => rfl
  | some b => rw [Option.map_some, Option.map_some, h b (List.mem_of_getElem? hb) _ (Nat.mod_lt a h0)]

end SystemProjects.Blocks
