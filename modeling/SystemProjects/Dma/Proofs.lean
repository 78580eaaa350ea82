import Mathlib.Data.Fintype.Basic
import Mathlib.Tactic.FinCases
import SystemProjects.Dma.Code
import SystemProjects.Lib.Dma8237

/-!
# What the controllers are told
-/

open SystemProjects.Dma8237

namespace SystemProjects.Dma

variable {channel d : Fin 8} {address length : Nat} {mode : Mode} {p : Pair}

/-! ## The ports and the bytes -/

theorem target_ports (c : Fin 8) :
    target (dmaMaskreg.get c) = some (.register (second c) .mask) ∧
      target (dmaModereg.get c) = some (.register (second c) .mode) ∧
      target (dmaClearreg.get c) = some (.register (second c) .clearFlipFlop) ∧
      target (dmaPageport.get c) = some (.page c) ∧
      target (dmaAddressport.get c) = some (.register (second c) (.address (line c))) ∧
      target (dmaCountport.get c) = some (.register (second c) (.count (line c))) := by
  fin_cases c <;> exact ⟨rfl, rfl, rfl, rfl, rfl, rfl⟩

theorem and_offset (n : Nat) : n &&& 0xFFFF = n % 2 ^ 16 := Nat.and_two_pow_sub_one_eq_mod n 16

theorem low_byte (n : Nat) : (n &&& 0x00FF) % 2 ^ 8 = n % 2 ^ 16 % 256 := by
  have h : n &&& 0x00FF = n % 2 ^ 8 := Nat.and_two_pow_sub_one_eq_mod n 8
  omega

theorem high_byte (n : Nat) : (n &&& 0xFF00) >>> 8 % 2 ^ 8 = n % 2 ^ 16 / 256 := by
  have h : 0xFF00 >>> 8 = 2 ^ 8 - 1 := rfl
  rw [Nat.shiftRight_and_distrib, h, Nat.and_two_pow_sub_one_eq_mod, Nat.shiftRight_eq_div_pow]
  omega

theorem Mode.data_lt (m : Mode) : m.data < 256 := by
  unfold data
  omega

/-- The last byte that a call writes to the mask register, as the first one, names the channel. -/
theorem named_channel (c : Fin 8) :
    named ((0x04 ||| c.val) % 2 ^ 8) = line c ∧ named (c.val % 2 ^ 8) = line c := by
  revert c
  decide

theorem named_mode (h : mode.channel = channel) : named mode.data = line channel := by
  have hd : mode.data % 4 = channel.val % 4 := by
    unfold Mode.data
    omega
  exact Fin.ext hd

/-- A call sets up the channel with the low 24 bits of the address and the low 16 of the count, and
ends with the channel's number in the mask register. -/
theorem outs_dmaTransfer :
    p.outs (dmaTransfer channel address length mode) = p.writes (setup channel
      ((0x04 ||| channel.val) % 2 ^ 8) mode.data (address / 2 ^ 16 % 2 ^ 8) (address % 2 ^ 16)
      (dword (length + (2 ^ 32 - 1)) % 2 ^ 16) (channel.val % 2 ^ 8)) := by
  obtain ⟨hmask, hmode, hclear, hpage, haddress, hcount⟩ := target_ports channel
  have hport (v : Vector Nat 8) : v[channel] = v.get channel := rfl
  have hdata : mode.data % 2 ^ 8 = mode.data := Nat.mod_eq_of_lt mode.data_lt
  have hbyte (n : Nat) : n % 2 ^ 8 % 2 ^ 8 = n % 2 ^ 8 := Nat.mod_mod _ _
  have hword (n : Nat) : n % 2 ^ 16 % 2 ^ 16 = n % 2 ^ 16 := Nat.mod_mod _ _
  simp only [dmaTransfer, hport, portOutb, Pair.outs, Pair.writes, setup, List.foldl, Pair.out, hmask, hmode,
    hclear, hpage, haddress, hcount, and_offset, low_byte, high_byte, hbyte, hword,
    Nat.shiftRight_eq_div_pow address, Nat.zero_mod, hdata]

/-! ## What a call programs -/

theorem channel_dmaTransfer (h : mode.channel = channel) :
    (p.outs (dmaTransfer channel address length mode)).channel channel =
      { address := address % 2 ^ 16, count := dword (length + (2 ^ 32 - 1)) % 2 ^ 16, mode := mode.data,
        masked := second channel } := by
  have hlast : ∀ c : Fin 8, decide (c.val % 2 ^ 8 / 4 % 2 = 1) = second c := by decide
  rw [outs_dmaTransfer, Pair.channel_setup (named_channel channel).1 (named_mode h) (named_channel channel).2,
    hlast]

theorem page_dmaTransfer :
    (p.outs (dmaTransfer channel address length mode)).page channel = address / 2 ^ 16 % 2 ^ 8 := by
  rw [outs_dmaTransfer, Pair.page_setup]

inductive Operation where
  | read
  | write

def Operation.run : Operation → Fin 8 → Nat → Nat → List PortWrite
  | .read => dmaRead
  | .write => dmaWrite

def Operation.type : Operation → Nat
  | .read => DMA_READ
  | .write => DMA_WRITE

/-- What the address and the count of a channel can reach from one page. -/
def boundary (channel : Fin 8) : Nat := unit channel * 2 ^ 16

/-- The bytes from `a` on are below 16 MB, on one side of each boundary, and whole units. -/
structure Transferable (channel : Fin 8) (a n : Nat) : Prop where
  pos : 1 ≤ n
  below : a + n ≤ 2 ^ 24
  inside : a % boundary channel + n ≤ boundary channel
  aligned : a % unit channel = 0 ∧ n % unit channel = 0

/-- The transfer type that the bits of the mode ask for: nothing sets that of a write. -/
def Operation.asked : Operation → Nat
  | .read => DMA_READ
  | .write => 0

def Operation.bits (op : Operation) (channel : Fin 8) : Mode :=
  { Mode.zero with modeselect := DMA_SINGLE, transfertype := op.asked, channel := channel }

theorem Operation.run_eq (op : Operation) (channel : Fin 8) (a n : Nat) :
    op.run channel a n = dmaTransfer channel a n (op.bits channel) := by
  cases op <;> rfl

theorem Operation.asked_le (op : Operation) : op.asked ≤ 2 := by
  cases op <;> decide

theorem transferType_run (op : Operation) (a n : Nat) :
    (p.outs (op.run channel a n)).transferType channel = op.asked := by
  have := op.asked_le
  unfold Pair.transferType
  rw [op.run_eq, channel_dmaTransfer rfl]
  simp only [Operation.bits, Mode.data, Mode.zero, DMA_SINGLE]
  omega

theorem masked_run (op : Operation) (a n : Nat) :
    ((p.outs (op.run channel a n)).channel channel).masked = second channel := by
  rw [op.run_eq, channel_dmaTransfer rfl]

theorem first_run (op : Operation) (hs : second channel = false) {a : Nat} (h : a < 2 ^ 24) (n : Nat) :
    (p.outs (op.run channel a n)).first channel = a := by
  have hup : (op.bits channel).data / 32 % 2 = 0 := by
    have := op.asked_le
    simp only [Operation.bits, Mode.data, Mode.zero, DMA_SINGLE]
    omega
  unfold Pair.first Pair.start
  rw [op.run_eq, channel_dmaTransfer rfl, page_dmaTransfer]
  simp only [hup, hs, zero_ne_one, Bool.false_eq_true, ite_false]
  omega

theorem length_run (op : Operation) (hs : second channel = false) (a : Nat) {n : Nat} (hn : 1 ≤ n)
    (h : n ≤ 2 ^ 16) : (p.outs (op.run channel a n)).length channel = n := by
  unfold Pair.length unit
  rw [op.run_eq, channel_dmaTransfer rfl]
  simp only [hs, Bool.false_eq_true, ite_false, dword]
  omega

theorem second_eq_false : second channel = false ↔ channel < 4 := by
  simp [second, Fin.lt_def]

/-- The channels of the second controller stay masked, because their numbers have bit 2 set, and no
call asks for a write. -/
theorem programmed_iff (op : Operation) (channel : Fin 8) {a n : Nat} (h : Transferable channel a n)
    (p : Pair) :
    (p.outs (op.run channel a n)).Programmed channel op.type a n ↔ op = .read ∧ channel < 4 := by
  constructor
  · intro hp
    constructor
    · have ht := hp.type_eq
      rw [transferType_run] at ht
      cases op with
      | read => rfl
      | write => exact absurd ht (by decide)
    · have hm := hp.unmasked
      rwa [masked_run, second_eq_false] at hm
  · rintro ⟨rfl, hc⟩
    have hs := second_eq_false.mpr hc
    have hb := h.inside
    have hn := h.pos
    have ha := h.below
    simp only [boundary, unit, hs, Bool.false_eq_true, ite_false] at hb
    exact
      { type_eq := transferType_run .read a n
        first_eq := first_run .read hs (by omega) n
        length_eq := length_run .read hs a hn (by omega)
        unmasked := by rw [masked_run, hs] }

def resetPair : Pair :=
  { controller := fun _ => { channel := fun _ => ⟨0, 0, 0, true⟩, high := false }, page := fun _ => 0 }

theorem sector_transferable : Transferable 2 0x1000 512 := ⟨by decide, by decide, by decide, by decide⟩

theorem sector_read_programmed :
    (resetPair.outs (Operation.read.run 2 0x1000 512)).Programmed 2 DMA_READ 0x1000 512 :=
  (programmed_iff .read 2 sector_transferable resetPair).mpr ⟨rfl, by decide⟩

theorem sector_write_not_programmed :
    ¬ (resetPair.outs (Operation.write.run 2 0x1000 512)).Programmed 2 DMA_WRITE 0x1000 512 := by
  intro h
  have ht := h.type_eq
  rw [transferType_run] at ht
  exact absurd ht (by decide)

end SystemProjects.Dma
