import Mathlib.Data.Nat.Bitwise
import SystemProjects.Lib.Memory

/-!
# `dma.c`

A call is the list of its port writes. Masking the interrupts of the processor writes no port.
-/

namespace SystemProjects.Dma

abbrev PortWrite := Nat × Nat

def dmaMaskreg : Vector Nat 8 := #v[0x0A, 0x0A, 0x0A, 0x0A, 0xD4, 0xD4, 0xD4, 0xD4]
def dmaModereg : Vector Nat 8 := #v[0x0B, 0x0B, 0x0B, 0x0B, 0xD6, 0xD6, 0xD6, 0xD6]
def dmaClearreg : Vector Nat 8 := #v[0x0C, 0x0C, 0x0C, 0x0C, 0xD8, 0xD8, 0xD8, 0xD8]
def dmaPageport : Vector Nat 8 := #v[0x87, 0x83, 0x81, 0x82, 0x8F, 0x8B, 0x89, 0x8A]
def dmaAddressport : Vector Nat 8 := #v[0x00, 0x02, 0x04, 0x06, 0xC0, 0xC4, 0xC8, 0xCC]
def dmaCountport : Vector Nat 8 := #v[0x01, 0x03, 0x05, 0x07, 0xC2, 0xC6, 0xCA, 0xCE]

def DMA_SINGLE : Nat := 1

def DMA_WRITE : Nat := 1
def DMA_READ : Nat := 2

/-- `struct MODE_BITS`, from bit 0 up. -/
structure Mode where
  channel : Nat
  transfertype : Nat
  autoinit : Nat
  addressincrement : Nat
  modeselect : Nat

def Mode.data (m : Mode) : Nat :=
  m.channel % 4 + m.transfertype % 4 * 4 + m.autoinit % 2 * 16 + m.addressincrement % 2 * 32
    + m.modeselect % 4 * 64

/-- The mode with `data` 0. -/
def Mode.zero : Mode := ⟨0, 0, 0, 0, 0⟩

/-- `port_outb`, whose second parameter is a `BYTE`. -/
def portOutb (port byte : Nat) : PortWrite := (port, byte % 2 ^ 8)

def dmaTransfer (channel : Fin 8) (address length : Nat) (mode : Mode) : List PortWrite :=
  let page := address >>> 16 % 2 ^ 8
  let offset := address &&& 0xFFFF
  let length := dword (length + (2 ^ 32 - 1))
  [portOutb dmaMaskreg[channel] (0x04 ||| channel),
    portOutb dmaClearreg[channel] 0x00,
    portOutb dmaModereg[channel] mode.data,
    portOutb dmaAddressport[channel] (offset &&& 0x00FF),
    portOutb dmaAddressport[channel] ((offset &&& 0xFF00) >>> 8),
    portOutb dmaPageport[channel] page,
    portOutb dmaCountport[channel] (length &&& 0x00FF),
    portOutb dmaCountport[channel] ((length &&& 0xFF00) >>> 8),
    portOutb dmaMaskreg[channel] channel]

def dmaRead (channel : Fin 8) (address length : Nat) : List PortWrite :=
  dmaTransfer channel address length
    { Mode.zero with modeselect := DMA_SINGLE, transfertype := DMA_READ, channel := channel }

def dmaWrite (channel : Fin 8) (address length : Nat) : List PortWrite :=
  dmaTransfer channel address length { Mode.zero with modeselect := DMA_SINGLE, channel := channel }

end SystemProjects.Dma
