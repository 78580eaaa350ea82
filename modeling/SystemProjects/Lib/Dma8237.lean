import Mathlib.Algebra.Group.Nat.Defs
import Mathlib.Data.Fin.Basic
import Mathlib.Logic.Function.Basic

/-!
# The 8237 pair of a PC

What the two controllers and the page latches make of a sequence of port writes.
-/

namespace SystemProjects.Dma8237

/-- `address` and `count` have 16 bits. -/
structure Channel where
  address : Nat
  count : Nat
  mode : Nat
  masked : Bool

structure Controller where
  channel : Fin 4 → Channel
  /-- The byte flip-flop: the next byte of an address or a count is the high one. -/
  high : Bool

inductive Register where
  | address (c : Fin 4)
  | count (c : Fin 4)
  | command
  | request
  | mask
  | mode
  | clearFlipFlop
  | masterClear
  | clearMask
  | maskAll

def putByte (high : Bool) (byte word : Nat) : Nat :=
  if high then byte * 256 + word % 256 else word / 256 * 256 + byte

def Controller.set (k : Controller) (c : Fin 4) (f : Channel → Channel) : Controller :=
  { k with channel := Function.update k.channel c (f (k.channel c)) }

def Controller.flip (k : Controller) : Controller := { k with high := !k.high }

/-- The channel that bits 0 and 1 of a byte name. -/
def named (byte : Nat) : Fin 4 := Fin.ofNat 4 byte

-- The command and the request register have no part in what a channel is programmed to do.
def Controller.write (k : Controller) : Register → Nat → Controller
  | .address c, byte => (k.set c fun ch => { ch with address := putByte k.high byte ch.address }).flip
  | .count c, byte => (k.set c fun ch => { ch with count := putByte k.high byte ch.count }).flip
  | .command, _ => k
  | .request, _ => k
  | .mask, byte => k.set (named byte) fun ch => { ch with masked := byte / 4 % 2 = 1 }
  | .mode, byte => k.set (named byte) fun ch => { ch with mode := byte }
  | .clearFlipFlop, _ => { k with high := false }
  | .masterClear, _ => { channel := fun c => { k.channel c with masked := true }, high := false }
  | .clearMask, _ => { k with channel := fun c => { k.channel c with masked := false } }
  | .maskAll, byte => { k with channel := fun c => { k.channel c with masked := byte.testBit c } }

/-! ## The two controllers -/

inductive Target where
  | register (second : Bool) (r : Register)
  | page (c : Fin 8)

structure Pair where
  controller : Bool → Controller
  page : Fin 8 → Nat

def Pair.write (p : Pair) : Target → Nat → Pair
  | .register second r, byte =>
    { p with controller := Function.update p.controller second ((p.controller second).write r byte) }
  | .page c, byte => { p with page := Function.update p.page c byte }

def registers : Vector Register 16 :=
  #v[.address 0, .count 0, .address 1, .count 1, .address 2, .count 2, .address 3, .count 3,
    .command, .request, .mask, .mode, .clearFlipFlop, .masterClear, .clearMask, .maskAll]

/-- The ports of a register are one apart in the first controller and two in the second. -/
def target (port : Nat) : Option Target :=
  if h : port < 16 then some (.register false registers[port])
  else if h : 0xC0 ≤ port ∧ port < 0xE0 ∧ port % 2 = 0 then
    some (.register true registers[(port - 0xC0) / 2])
  else match port with
    | 0x87 => some (.page 0)
    | 0x83 => some (.page 1)
    | 0x81 => some (.page 2)
    | 0x82 => some (.page 3)
    | 0x8F => some (.page 4)
    | 0x8B => some (.page 5)
    | 0x89 => some (.page 6)
    | 0x8A => some (.page 7)
    | _ => none

def Pair.out (p : Pair) (w : Nat × Nat) : Pair :=
  match target w.1 with
  | some t => p.write t w.2
  | none => p

def Pair.outs (p : Pair) (ws : List (Nat × Nat)) : Pair := ws.foldl Pair.out p

/-! ## What a channel does -/

/-- The channels 4 to 7 are the second controller's. -/
def second (c : Fin 8) : Bool := 4 ≤ c.val

def line (c : Fin 8) : Fin 4 := Fin.ofNat 4 c

def Pair.channel (p : Pair) (c : Fin 8) : Channel := (p.controller (second c)).channel (line c)

/-- The second controller counts in words, and bit 0 of its page is not used. -/
def unit (c : Fin 8) : Nat := if second c then 2 else 1

def Pair.start (p : Pair) (c : Fin 8) : Nat :=
  if second c then p.page c / 2 * 2 * 2 ^ 16 + 2 * (p.channel c).address
  else p.page c * 2 ^ 16 + (p.channel c).address

def Pair.length (p : Pair) (c : Fin 8) : Nat := unit c * ((p.channel c).count + 1)

/-- Bit 5 of the mode makes the address go down. -/
def Pair.first (p : Pair) (c : Fin 8) : Nat :=
  if (p.channel c).mode / 32 % 2 = 1 then p.start c + unit c - p.length c else p.start c

/-- Bits 2 and 3 of the mode: 0 verifies, 1 writes to memory and 2 reads from it. -/
def Pair.transferType (p : Pair) (c : Fin 8) : Nat := (p.channel c).mode / 4 % 4

/-- The channel is ready to move `length` bytes from `first` on. -/
structure Pair.Programmed (p : Pair) (c : Fin 8) (type first length : Nat) : Prop where
  type_eq : p.transferType c = type
  first_eq : p.first c = first
  length_eq : p.length c = length
  unmasked : (p.channel c).masked = false

/-! ## Writing to one channel -/

variable {k : Controller} {p : Pair} {c d : Fin 8} {low hi : Nat}

@[simp] theorem Controller.set_self (c : Fin 4) (f : Channel → Channel) :
    (k.set c f).channel c = f (k.channel c) := by
  simp [set]

theorem Controller.set_other {c d : Fin 4} (f : Channel → Channel) (h : d ≠ c) :
    (k.set c f).channel d = k.channel d := by
  simp [set, h]

@[simp] theorem Controller.set_high (c : Fin 4) (f : Channel → Channel) : (k.set c f).high = k.high := rfl

@[simp] theorem Controller.flip_channel : k.flip.channel = k.channel := rfl

@[simp] theorem Controller.flip_high : k.flip.high = !k.high := rfl

/-- Two bytes make the word, whatever it was. -/
theorem putByte_twice (word hi : Nat) (h : low < 256) :
    putByte true hi (putByte false low word) = hi * 256 + low := by
  simp only [putByte, ite_true, Bool.false_eq_true, ite_false]
  omega

@[simp] theorem Pair.controller_register (s : Bool) (r : Register) (byte : Nat) :
    (p.write (.register s r) byte).controller s = (p.controller s).write r byte := by
  simp [write]

@[simp] theorem Pair.controller_page (byte : Nat) :
    (p.write (.page c) byte).controller = p.controller := rfl

@[simp] theorem Pair.page_register (s : Bool) (r : Register) (byte : Nat) :
    (p.write (.register s r) byte).page = p.page := rfl

@[simp] theorem Pair.page_page (byte : Nat) : (p.write (.page c) byte).page c = byte := by
  simp [write]

/-- How a channel is set up: masked, its registers written from the low byte up, and the mask written
again. -/
def setup (c : Fin 8) (mask mode page address count last : Nat) : List (Target × Nat) :=
  let r := Target.register (second c)
  [(r .mask, mask), (r .clearFlipFlop, 0), (r .mode, mode),
    (r (.address (line c)), address % 256), (r (.address (line c)), address / 256),
    (.page c, page),
    (r (.count (line c)), count % 256), (r (.count (line c)), count / 256),
    (r .mask, last)]

def Pair.writes (p : Pair) (ws : List (Target × Nat)) : Pair := ws.foldl (fun p w => p.write w.1 w.2) p

section setup

variable {mask mode page address count last : Nat} (hmask : named mask = line c)
  (hmode : named mode = line c) (hlast : named last = line c)
include hmask hmode hlast

theorem Pair.channel_setup : (p.writes (setup c mask mode page address count last)).channel c =
    { address := address, count := count, mode := mode, masked := last / 4 % 2 = 1 } := by
  have ha := putByte_twice (p.channel c).address (address / 256) (Nat.mod_lt address (by decide : 0 < 256))
  have hc := putByte_twice (p.channel c).count (count / 256) (Nat.mod_lt count (by decide : 0 < 256))
  rw [Nat.div_add_mod'] at ha hc
  simp only [channel] at ha hc
  simp [writes, setup, channel, Controller.write, hmask, hmode, hlast, ha, hc]

omit hmask hmode hlast

theorem Pair.page_setup : (p.writes (setup c mask mode page address count last)).page c = page := by
  simp [writes, setup]

end setup

end SystemProjects.Dma8237
