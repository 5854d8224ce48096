/-
Shared pieces of the RV32IM performance model (`src/CpuModel.cpp`, `src/PipelineTimingModel.cpp`): the exceptions it
throws, the bit-field helpers and the instruction fields.

Machine words are `BitVec 32`; `std::int32_t` values are the same bit patterns read through `asI32`. 64-bit totals
and sizes are naturals. Field positions are those of the switch in `CpuModel::step`. Registers have the numbers that
`Isa/Spec.lean` gives them.
-/
import Mathlib.Data.BitVec
import Mathlib.Tactic
import Rv32im.Core.Exec
import Rv32im.Isa.Spec

namespace Rv32im

/-! ## Exceptions -/

/-- lower-case hexadecimal digits, as `std::hex` prints them -/
def hex (n : ℕ) : String := String.ofList (Nat.toDigits 16 n)

/-- `std::setw(8) << std::setfill('0') << std::hex` -/
def hex8 (v : BitVec 32) : String :=
  let digits := Nat.toDigits 16 v.toNat
  String.ofList (List.replicate (8 - digits.length) '0' ++ digits)

/-- what the model throws -/
inductive Exn where
  | outOfRange (addr : BitVec 32) (width size : ℕ)
  | maxInstructions
  | misalignedFetch
  | illegal (pc insn : BitVec 32) (reason : String)
  | fetchTarget
  | replayMiss
  | lineCount
  | lineBytes
deriving DecidableEq, Repr

/-- the text of the exception -/
def Exn.what : Exn → String
  | .outOfRange addr width size => "Memory access out of range: addr=0x" ++ hex addr.toNat ++ " width=" ++
      toString width ++ " memory_size=" ++ toString size
  | .maxInstructions => "Maximum retired-instruction limit reached"
  | .misalignedFetch => "Misaligned instruction fetch"
  | .illegal pc insn reason => "Illegal/unsupported instruction at PC=0x" ++ hex8 pc ++ " insn=0x" ++ hex8 insn ++
      " (" ++ reason ++ ")"
  | .fetchTarget => "IFetchStreamModel target PC must be word aligned"
  | .replayMiss => "Expected D-cache filled-line replay hit after IF/D overlap"
  | .lineCount => "Cache line count must be a non-zero power of two"
  | .lineBytes => "Current RTL cache model supports one 32-bit word (4 bytes) per line"

/-! ## Bit fields -/

def bits (value : BitVec 32) (hi lo : ℕ) : BitVec 32 :=
  let width := hi - lo + 1
  let mask : BitVec 32 := if width = 32 then 0xffffffff#32 else (1#32 <<< width) - 1#32
  (value >>> lo) &&& mask

/-- the bit pattern of the `int32_t` that `sign_extend` returns -/
def signExtend (value : BitVec 32) (width : ℕ) : BitVec 32 :=
  let sign := 1#32 <<< (width - 1)
  let mask : BitVec 32 := if width = 32 then 0xffffffff#32 else (1#32 <<< width) - 1#32
  let value := value &&& mask
  (value ^^^ sign) - sign

def asI32 (value : BitVec 32) : ℤ := value.toInt

theorem mask_toNat {width : ℕ} (h : width ≤ 32) :
    (if width = 32 then 0xffffffff#32 else (1#32 <<< width) - 1#32).toNat = 2 ^ width - 1 := by
  split_ifs with h32
  · subst h32; rfl
  · have hlt : (2 : ℕ) ^ width < 2 ^ 32 := Nat.pow_lt_pow_right (by decide) (by omega)
    have hpos : 0 < (2 : ℕ) ^ width := by positivity
    have hone : (1#32 <<< width).toNat = 2 ^ width := by
      rw [BitVec.toNat_shiftLeft, BitVec.toNat_ofNat, Nat.shiftLeft_eq]
      omega
    have hle : 1#32 ≤ 1#32 <<< width := by rw [BitVec.le_def, hone]; exact hpos
    rw [BitVec.toNat_sub_of_le hle, hone]
    rfl

/-- a field is the word divided by its position, modulo its width -/
theorem bits_toNat (value : BitVec 32) {hi lo : ℕ} (h : hi - lo + 1 ≤ 32) :
    (bits value hi lo).toNat = value.toNat / 2 ^ lo % 2 ^ (hi - lo + 1) := by
  simp only [bits, BitVec.toNat_and, mask_toNat h, BitVec.toNat_ushiftRight, Nat.and_two_pow_sub_one_eq_mod,
    Nat.shiftRight_eq_div_pow]

theorem bits_lt (value : BitVec 32) {hi lo : ℕ} (h : hi - lo + 1 ≤ 32) :
    (bits value hi lo).toNat < 2 ^ (hi - lo + 1) := by
  rw [bits_toNat value h]
  exact Nat.mod_lt _ (by positivity)

/-! ## Instruction fields -/

section Fields

variable (insn : BitVec 32)

def opcode : ℕ := (bits insn 6 0).toNat
def rd : Fin 32 := ⟨(bits insn 11 7).toNat, bits_lt insn (by decide)⟩
def funct3 : ℕ := (bits insn 14 12).toNat
def rs1 : Fin 32 := ⟨(bits insn 19 15).toNat, bits_lt insn (by decide)⟩
def rs2 : Fin 32 := ⟨(bits insn 24 20).toNat, bits_lt insn (by decide)⟩
def funct7 : ℕ := (bits insn 31 25).toNat

def immI : BitVec 32 := signExtend (bits insn 31 20) 12

def immS : BitVec 32 := signExtend ((bits insn 31 25 <<< 5) ||| bits insn 11 7) 12

def immB : BitVec 32 :=
  signExtend ((bits insn 31 31 <<< 12) ||| (bits insn 7 7 <<< 11) ||| (bits insn 30 25 <<< 5) |||
    (bits insn 11 8 <<< 1)) 13

def immJ : BitVec 32 :=
  signExtend ((bits insn 31 31 <<< 20) ||| (bits insn 19 12 <<< 12) ||| (bits insn 20 20 <<< 11) |||
    (bits insn 30 21 <<< 1)) 21

def immU : BitVec 32 := insn &&& 0xfffff000#32

end Fields

/-- the cache block of a byte address: one 32-bit word per line -/
def block (addr : BitVec 32) : ℕ := addr.toNat / 4

end Rv32im
