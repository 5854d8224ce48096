/-
The byte-addressed memories of the model (`src/Memory.cpp`).

An access of `width` bytes is checked against the size in 64-bit arithmetic; the byte addresses inside a checked
access are 32-bit sums, as in the source.

- `write8_size`, `write16_size`, `write32_size`: a write keeps the size.
- `write32_isOk`, `read32_error`, `read32_isOk`: a word is written or read exactly when its last byte is inside memory.
-/
import Rv32im.Model.Basic

namespace Rv32im

structure Memory where
  bytes : Array (BitVec 8)
deriving DecidableEq, Repr

namespace Memory

/-- `Memory(size_bytes)`: all bytes zero -/
def zeros (size : ℕ) : Memory := ⟨Array.replicate size 0⟩

/-- a memory of `size` bytes holding an image -/
def ofImage (size : ℕ) (image : ℕ → BitVec 8) : Memory := ⟨((List.range size).map image).toArray⟩

def size (m : Memory) : ℕ := m.bytes.size

/-- `bytes_[addr]` -/
def byte (m : Memory) (addr : BitVec 32) : BitVec 8 := m.bytes.getD addr.toNat 0

/-- `bytes_[addr] = value` -/
def setByte (m : Memory) (addr : BitVec 32) (value : BitVec 8) : Memory :=
  ⟨m.bytes.setIfInBounds addr.toNat value⟩

def checkRange (m : Memory) (addr : BitVec 32) (width : ℕ) : Except Exn Unit :=
  if addr.toNat + width > m.size then .error (.outOfRange addr width m.size) else .ok ()

def read8 (m : Memory) (addr : BitVec 32) : Except Exn (BitVec 8) := do
  m.checkRange addr 1
  return m.byte addr

def read16 (m : Memory) (addr : BitVec 32) : Except Exn (BitVec 16) := do
  m.checkRange addr 2
  return (m.byte addr).setWidth 16 ||| ((m.byte (addr + 1)).setWidth 16 <<< 8)

def read32 (m : Memory) (addr : BitVec 32) : Except Exn (BitVec 32) := do
  m.checkRange addr 4
  return (m.byte addr).setWidth 32 ||| ((m.byte (addr + 1)).setWidth 32 <<< 8) |||
    ((m.byte (addr + 2)).setWidth 32 <<< 16) ||| ((m.byte (addr + 3)).setWidth 32 <<< 24)

def write8 (m : Memory) (addr : BitVec 32) (value : BitVec 8) : Except Exn Memory := do
  m.checkRange addr 1
  return m.setByte addr value

def write16 (m : Memory) (addr : BitVec 32) (value : BitVec 16) : Except Exn Memory := do
  m.checkRange addr 2
  return (m.setByte addr (value &&& 0xff#16 |>.setWidth 8)).setByte (addr + 1)
    ((value >>> 8) &&& 0xff#16 |>.setWidth 8)

def write32 (m : Memory) (addr : BitVec 32) (value : BitVec 32) : Except Exn Memory := do
  m.checkRange addr 4
  return (((m.setByte addr (value &&& 0xff#32 |>.setWidth 8)).setByte (addr + 1)
    ((value >>> 8) &&& 0xff#32 |>.setWidth 8)).setByte (addr + 2)
    ((value >>> 16) &&& 0xff#32 |>.setWidth 8)).setByte (addr + 3) ((value >>> 24) &&& 0xff#32 |>.setWidth 8)

/-! ## Sizes -/

@[simp] theorem setByte_size (m : Memory) (addr : BitVec 32) (value : BitVec 8) :
    (m.setByte addr value).size = m.size := by
  simp [setByte, size]

@[simp] theorem ofImage_size (n : ℕ) (image : ℕ → BitVec 8) : (ofImage n image).size = n := by
  simp [ofImage, size]

/-! ## When an access returns -/

theorem checkRange_bind {α : Type} (m : Memory) (addr : BitVec 32) (width : ℕ) (x : Except Exn α) :
    (do m.checkRange addr width; x) =
      if addr.toNat + width > m.size then .error (.outOfRange addr width m.size) else x := by
  unfold checkRange
  split_ifs <;> rfl

theorem checkRange_bind_error {α : Type} {m : Memory} {addr : BitVec 32} {width : ℕ} {x : Except Exn α}
    (h : m.size < addr.toNat + width) : (do m.checkRange addr width; x) = .error (.outOfRange addr width m.size) := by
  rw [checkRange_bind, if_pos h]

theorem checkRange_bind_ok {α : Type} {m : Memory} {addr : BitVec 32} {width : ℕ} {x : Except Exn α} {v : α}
    (h : (do m.checkRange addr width; x) = .ok v) : x = .ok v := by
  rw [checkRange_bind] at h
  split_ifs at h
  exact h

theorem write8_size {m m' : Memory} {addr : BitVec 32} {value : BitVec 8} (h : m.write8 addr value = .ok m') :
    m'.size = m.size := by
  cases checkRange_bind_ok h
  simp only [setByte_size]

theorem write16_size {m m' : Memory} {addr : BitVec 32} {value : BitVec 16} (h : m.write16 addr value = .ok m') :
    m'.size = m.size := by
  cases checkRange_bind_ok h
  simp only [setByte_size]

theorem write32_size {m m' : Memory} {addr value : BitVec 32} (h : m.write32 addr value = .ok m') :
    m'.size = m.size := by
  cases checkRange_bind_ok h
  simp only [setByte_size]

/-- a word is written exactly when its last byte is inside memory -/
theorem write32_isOk {m : Memory} {addr value : BitVec 32} :
    (∃ m', m.write32 addr value = .ok m') ↔ addr.toNat + 4 ≤ m.size := by
  unfold write32
  rw [checkRange_bind]
  split_ifs with h
  · exact ⟨nofun, fun hle => absurd h (Nat.not_lt.2 hle)⟩
  · exact ⟨fun _ => Nat.not_lt.1 h, fun _ => ⟨_, rfl⟩⟩

theorem read32_eq (m : Memory) (addr : BitVec 32) :
    m.read32 addr = if addr.toNat + 4 > m.size then .error (.outOfRange addr 4 m.size)
      else .ok ((m.byte addr).setWidth 32 ||| ((m.byte (addr + 1)).setWidth 32 <<< 8) |||
        ((m.byte (addr + 2)).setWidth 32 <<< 16) ||| ((m.byte (addr + 3)).setWidth 32 <<< 24)) :=
  checkRange_bind m addr 4 _

theorem read32_error {m : Memory} {addr : BitVec 32} {e : Exn} :
    m.read32 addr = .error e ↔ addr.toNat + 4 > m.size ∧ e = .outOfRange addr 4 m.size := by
  rw [read32_eq]
  split_ifs with h <;> simp [h, eq_comm]

theorem read32_ok_bound {m : Memory} {addr v : BitVec 32} (h : m.read32 addr = .ok v) :
    addr.toNat + 4 ≤ m.size := by
  rw [read32_eq] at h
  split_ifs at h with hb
  omega

theorem read32_isOk {m : Memory} {addr : BitVec 32} (h : addr.toNat + 4 ≤ m.size) : ∃ v, m.read32 addr = .ok v := by
  rw [read32_eq, if_neg (by omega)]
  exact ⟨_, rfl⟩

end Memory

end Rv32im
