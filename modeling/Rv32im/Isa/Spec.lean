/-
The RV32IM unprivileged instructions over mathematical integers.

A register holds a number below 2^32, read as unsigned or, through `signed`, as two's complement. Fields of an
instruction word are quotients and remainders, immediates are the integers that the formats encode, and a result is
reduced modulo 2^32 once, by `wrap`. Nothing here depends on a program or on a bit-vector.

- `decode`: the instruction of a word, if it is an RV32IM encoding. Every word with the MISC-MEM opcode is a fence.
- `Instr.run`: registers, pc and memory after an instruction.
- `Instr.exec`: the same, unless the instruction touches a byte outside memory or jumps to a misaligned target.
-/
import Mathlib.Tactic

namespace Rv32im

namespace Isa

/-! ## Numbers -/

/-- the 32-bit pattern of an integer -/
def wrap (v : ℤ) : ℕ := (v % 2 ^ 32).toNat

/-- the two's complement value of a pattern of `width` bits -/
def signed (width v : ℕ) : ℤ := if v < 2 ^ (width - 1) then v else v - 2 ^ width

theorem wrap_natCast {v : ℕ} (h : v < 2 ^ 32) : wrap v = v := by
  unfold wrap
  omega

/-- patterns of equal residues are equal -/
theorem wrap_eq_of_emod {v w : ℤ} (h : v % 2 ^ 32 = w % 2 ^ 32) : wrap v = wrap w := by
  unfold wrap
  rw [h]

@[simp] theorem wrap_add_wrap (v w : ℤ) : wrap (v + (wrap w : ℕ)) = wrap (v + w) := by
  unfold wrap
  omega

/-- a pattern and its two's complement value have one residue -/
theorem wrap_signed {v : ℕ} (h : v < 2 ^ 32) : wrap (signed 32 v) = v := by
  unfold signed wrap
  split_ifs <;> omega

theorem signed_modEq (v : ℕ) : signed 32 v ≡ v [ZMOD 2 ^ 32] := by
  unfold signed
  split_ifs
  · rfl
  · exact (Int.modEq_sub_modulus_iff.mpr rfl).symm

/-- the number that n bytes from `a` spell, least byte first -/
def read (mem : ℕ → ℕ) (a : ℕ) : ℕ → ℕ
  | 0 => 0
  | n + 1 => mem a + 256 * read mem (a + 1) n

theorem read_lt {mem : ℕ → ℕ} (h : ∀ a, mem a < 256) (a n : ℕ) : read mem a n < 256 ^ n := by
  induction n generalizing a with
  | zero => exact Nat.one_pos
  | succ n ih =>
    have hbyte := h a
    have hrest := ih (a + 1)
    rw [read, pow_succ]
    omega

/-- memory with n bytes from `a` spelling `v`, least byte first -/
def write (mem : ℕ → ℕ) (a v : ℕ) : ℕ → ℕ → ℕ
  | 0 => mem
  | n + 1 => write (Function.update mem a (v % 256)) (a + 1) (v / 256) n

theorem write_of_lt {mem : ℕ → ℕ} {a b : ℕ} (h : b < a) (v n : ℕ) : write mem a v n b = mem b := by
  induction n generalizing mem a v with
  | zero => rfl
  | succ n ih =>
    rw [write, ih (Nat.lt_succ_of_lt h)]
    exact Function.update_of_ne (Nat.ne_of_lt h) _ _

/-- each byte after a write -/
theorem write_apply (mem : ℕ → ℕ) (a v n b : ℕ) :
    write mem a v n b = if a ≤ b ∧ b < a + n then v / 256 ^ (b - a) % 256 else mem b := by
  induction n generalizing mem a v with
  | zero => exact (if_neg fun h => absurd h.1 (Nat.not_le.2 h.2)).symm
  | succ n ih =>
    rw [write, ih]
    rcases lt_trichotomy b a with hlt | rfl | hgt
    · rw [if_neg (by omega), if_neg (by omega), Function.update_of_ne hlt.ne]
    · rw [if_neg (by omega), if_pos (by omega), Function.update_self, Nat.sub_self, pow_zero, Nat.div_one]
    · have hpow : 256 ^ (b - a) = 256 * 256 ^ (b - (a + 1)) := by
        rw [← pow_succ', show b - (a + 1) + 1 = b - a by omega]
      rw [Function.update_of_ne hgt.ne', hpow, ← Nat.div_div_eq_div_mul]
      exact if_congr (by omega) rfl rfl

theorem write_outside {mem : ℕ → ℕ} {a n b : ℕ} (h : b < a ∨ a + n ≤ b) (v : ℕ) : write mem a v n b = mem b := by
  rw [write_apply]
  exact if_neg (by omega)

/-- only the bytes between count -/
theorem read_congr {mem mem' : ℕ → ℕ} {a n : ℕ} (h : ∀ b, a ≤ b → b < a + n → mem b = mem' b) :
    read mem a n = read mem' a n := by
  induction n generalizing a with
  | zero => rfl
  | succ n ih =>
    rw [read, read, h a le_rfl (by omega), ih fun b hle hlt => h b (by omega) (by omega)]

/-- a value that was written is read -/
theorem read_write (mem : ℕ → ℕ) (a v n : ℕ) : read (write mem a v n) a n = v % 256 ^ n := by
  induction n generalizing mem a v with
  | zero => rw [read, pow_zero, Nat.mod_one]
  | succ n ih =>
    rw [read, write, ih, write_of_lt (Nat.lt_succ_self a), Function.update_self, pow_succ', Nat.mod_mul]

/-- writing n bytes changes nothing exactly where they already spell the value -/
theorem write_eq_self_iff {mem : ℕ → ℕ} (h : ∀ a, mem a < 256) (a v n : ℕ) :
    write mem a v n = mem ↔ read mem a n = v % 256 ^ n := by
  induction n generalizing a v with
  | zero => simp [write, read, Nat.mod_one]
  | succ n ih =>
    have hsplit : write mem a v (n + 1) = mem ↔ mem a = v % 256 ∧ write mem (a + 1) (v / 256) n = mem := by
      rw [write]
      refine ⟨?_, ?_⟩
      · intro heq
        have hbyte : mem a = v % 256 := by
          rw [← congrFun heq a, write_of_lt (Nat.lt_succ_self a)]
          exact Function.update_self _ _ _
        rw [← hbyte, Function.update_eq_self] at heq
        exact ⟨hbyte, heq⟩
      · intro ⟨hbyte, heq⟩
        rw [← hbyte, Function.update_eq_self]
        exact heq
    have hlt := h a
    rw [hsplit, ih, read, pow_succ', Nat.mod_mul]
    omega

/-! ## Instructions -/

inductive Cond where
  | eq | ne | lt | ge | ltu | geu
deriving DecidableEq, Repr

inductive Width where
  | byte | half | word
deriving DecidableEq, Repr

inductive Alu where
  | add | sub | sll | slt | sltu | xor | srl | sra | or | and
deriving DecidableEq, Repr

inductive MulDiv where
  | mul | mulh | mulhsu | mulhu | div | divu | rem | remu
deriving DecidableEq, Repr

/-- `x0` is the register of number 0; the model names it by the same instance -/
instance (priority := high) registers_pos : NeZero 32 := ⟨by decide⟩

inductive Instr where
  | lui (rd : Fin 32) (imm : ℤ)
  | auipc (rd : Fin 32) (imm : ℤ)
  | jal (rd : Fin 32) (imm : ℤ)
  | jalr (rd rs1 : Fin 32) (imm : ℤ)
  | branch (c : Cond) (rs1 rs2 : Fin 32) (imm : ℤ)
  | load (w : Width) (sign : Bool) (rd rs1 : Fin 32) (imm : ℤ)
  | store (w : Width) (rs1 rs2 : Fin 32) (imm : ℤ)
  | opImm (f : Alu) (rd rs1 : Fin 32) (imm : ℤ)
  | op (f : Alu) (rd rs1 rs2 : Fin 32)
  | mulDiv (f : MulDiv) (rd rs1 rs2 : Fin 32)
  | fence
  | ecall
  | ebreak
deriving DecidableEq, Repr

/-! ## Decoding -/

def field (word hi lo : ℕ) : ℕ := word / 2 ^ lo % 2 ^ (hi - lo + 1)

def reg (word lo : ℕ) : Fin 32 := ⟨word / 2 ^ lo % 32, Nat.mod_lt _ (by decide)⟩

section Immediates

variable (word : ℕ)

def immI : ℤ := signed 12 (field word 31 20)

def immS : ℤ := signed 12 (field word 31 25 * 2 ^ 5 + field word 11 7)

def immB : ℤ :=
  signed 13 (field word 31 31 * 2 ^ 12 + field word 7 7 * 2 ^ 11 + field word 30 25 * 2 ^ 5 + field word 11 8 * 2)

def immU : ℤ := signed 32 (field word 31 12 * 2 ^ 12)

def immJ : ℤ :=
  signed 21 (field word 31 31 * 2 ^ 20 + field word 19 12 * 2 ^ 12 + field word 20 20 * 2 ^ 11 +
    field word 30 21 * 2)

end Immediates

def decodeCond (funct3 : ℕ) : Option Cond :=
  match funct3 with
  | 0 => some .eq
  | 1 => some .ne
  | 4 => some .lt
  | 5 => some .ge
  | 6 => some .ltu
  | 7 => some .geu
  | _ => none

/-- LB, LH, LW, LBU, LHU -/
def decodeLoad (funct3 : ℕ) : Option (Width × Bool) :=
  match funct3 with
  | 0 => some (.byte, true)
  | 1 => some (.half, true)
  | 2 => some (.word, true)
  | 4 => some (.byte, false)
  | 5 => some (.half, false)
  | _ => none

/-- SB, SH, SW -/
def decodeStore (funct3 : ℕ) : Option Width :=
  match funct3 with
  | 0 => some .byte
  | 1 => some .half
  | 2 => some .word
  | _ => none

/-- ADDI, SLLI, SLTI, SLTIU, XORI, SRLI, SRAI, ORI, ANDI -/
def decodeImm (funct3 funct7 : ℕ) : Option Alu :=
  match funct3 with
  | 0 => some .add
  | 1 => if funct7 = 0 then some .sll else none
  | 2 => some .slt
  | 3 => some .sltu
  | 4 => some .xor
  | 5 => if funct7 = 0 then some .srl else if funct7 = 0x20 then some .sra else none
  | 6 => some .or
  | 7 => some .and
  | _ => none

/-- ADD, SUB, SLL, SLT, SLTU, XOR, SRL, SRA, OR, AND -/
def decodeAlu (funct3 funct7 : ℕ) : Option Alu :=
  match funct3 with
  | 0 => if funct7 = 0 then some .add else if funct7 = 0x20 then some .sub else none
  | 1 => if funct7 = 0 then some .sll else none
  | 2 => if funct7 = 0 then some .slt else none
  | 3 => if funct7 = 0 then some .sltu else none
  | 4 => if funct7 = 0 then some .xor else none
  | 5 => if funct7 = 0 then some .srl else if funct7 = 0x20 then some .sra else none
  | 6 => if funct7 = 0 then some .or else none
  | 7 => if funct7 = 0 then some .and else none
  | _ => none

def decodeMulDiv (funct3 : ℕ) : Option MulDiv :=
  match funct3 with
  | 0 => some .mul
  | 1 => some .mulh
  | 2 => some .mulhsu
  | 3 => some .mulhu
  | 4 => some .div
  | 5 => some .divu
  | 6 => some .rem
  | 7 => some .remu
  | _ => none

def decode (word : ℕ) : Option Instr :=
  let rd := reg word 7
  let rs1 := reg word 15
  let rs2 := reg word 20
  let funct3 := field word 14 12
  let funct7 := field word 31 25
  match field word 6 0 with
  | 0x37 => some (.lui rd (immU word))
  | 0x17 => some (.auipc rd (immU word))
  | 0x6f => some (.jal rd (immJ word))
  | 0x67 => if funct3 = 0 then some (.jalr rd rs1 (immI word)) else none
  | 0x63 => (decodeCond funct3).map fun c => .branch c rs1 rs2 (immB word)
  | 0x03 => (decodeLoad funct3).map fun p => .load p.1 p.2 rd rs1 (immI word)
  | 0x23 => (decodeStore funct3).map fun w => .store w rs1 rs2 (immS word)
  | 0x13 => (decodeImm funct3 funct7).map fun f => .opImm f rd rs1 (immI word)
  | 0x33 =>
    if funct7 = 1 then (decodeMulDiv funct3).map fun f => .mulDiv f rd rs1 rs2
    else (decodeAlu funct3 funct7).map fun f => .op f rd rs1 rs2
  | 0x0f => some .fence
  | 0x73 => if word = 0x00000073 then some .ecall else if word = 0x00100073 then some .ebreak else none
  | _ => none

/-! ## Semantics -/

def Cond.holds (c : Cond) (a b : ℕ) : Bool :=
  match c with
  | .eq => a = b
  | .ne => a ≠ b
  | .lt => signed 32 a < signed 32 b
  | .ge => signed 32 a ≥ signed 32 b
  | .ltu => a < b
  | .geu => a ≥ b

def Width.bytes : Width → ℕ
  | .byte => 1
  | .half => 2
  | .word => 4

/-- a shift takes the lowest five bits of its second operand -/
def Alu.eval (f : Alu) (a b : ℕ) : ℕ :=
  match f with
  | .add => wrap (a + b)
  | .sub => wrap (a - b)
  | .sll => wrap (a * 2 ^ (b % 32))
  | .slt => if signed 32 a < signed 32 b then 1 else 0
  | .sltu => if a < b then 1 else 0
  | .xor => a ^^^ b
  | .srl => a / 2 ^ (b % 32)
  | .sra => wrap (signed 32 a / 2 ^ (b % 32))
  | .or => a ||| b
  | .and => a &&& b

/-- exact products and quotients; a zero divisor and the quotient 2^31 have results of their own -/
def MulDiv.eval (f : MulDiv) (a b : ℕ) : ℕ :=
  match f with
  | .mul => wrap (a * b)
  | .mulh => wrap (signed 32 a * signed 32 b / 2 ^ 32)
  | .mulhsu => wrap (signed 32 a * b / 2 ^ 32)
  | .mulhu => wrap (a * b / 2 ^ 32)
  | .div =>
    if b = 0 then wrap (-1)
    else if signed 32 a = -2 ^ 31 ∧ signed 32 b = -1 then a
    else wrap ((signed 32 a).tdiv (signed 32 b))
  | .divu => if b = 0 then wrap (-1) else a / b
  | .rem =>
    if b = 0 then a
    else if signed 32 a = -2 ^ 31 ∧ signed 32 b = -1 then 0
    else wrap ((signed 32 a).tmod (signed 32 b))
  | .remu => if b = 0 then a else a % b

/-- registers, pc and byte memory -/
@[ext] structure State where
  x : Fin 32 → ℕ
  pc : ℕ
  mem : ℕ → ℕ

/-- a register write; x0 stays zero -/
def State.set (s : State) (rd : Fin 32) (v : ℕ) : Fin 32 → ℕ := if rd = 0 then s.x else Function.update s.x rd v

namespace Instr

/-- the first byte and the number of bytes that a load or a store touches -/
def access (i : Instr) (s : State) : Option (ℕ × ℕ) :=
  match i with
  | .load w _ _ rs1 imm => some (wrap (s.x rs1 + imm), w.bytes)
  | .store w rs1 _ imm => some (wrap (s.x rs1 + imm), w.bytes)
  | _ => none

/-- the target of a jump or a taken branch -/
def target (i : Instr) (s : State) : Option ℕ :=
  match i with
  | .jal _ imm => some (wrap (s.pc + imm))
  | .jalr _ rs1 imm => some (wrap (s.x rs1 + imm) / 2 * 2)
  | .branch c rs1 rs2 imm => if c.holds (s.x rs1) (s.x rs2) then some (wrap (s.pc + imm)) else none
  | _ => none

/-- the register that an instruction writes, and its value -/
def result (i : Instr) (s : State) : Option (Fin 32 × ℕ) :=
  match i with
  | .lui rd imm => some (rd, wrap imm)
  | .auipc rd imm => some (rd, wrap (s.pc + imm))
  | .jal rd _ => some (rd, wrap (s.pc + 4))
  | .jalr rd _ _ => some (rd, wrap (s.pc + 4))
  | .load w sign rd rs1 imm =>
    let v := read s.mem (wrap (s.x rs1 + imm)) w.bytes
    some (rd, if sign then wrap (signed (8 * w.bytes) v) else v)
  | .opImm f rd rs1 imm => some (rd, f.eval (s.x rs1) (wrap imm))
  | .op f rd rs1 rs2 => some (rd, f.eval (s.x rs1) (s.x rs2))
  | .mulDiv f rd rs1 rs2 => some (rd, f.eval (s.x rs1) (s.x rs2))
  | _ => none

/-- memory after a store -/
def memory (i : Instr) (s : State) : ℕ → ℕ :=
  match i with
  | .store w rs1 rs2 imm => write s.mem (wrap (s.x rs1 + imm)) (s.x rs2) w.bytes
  | _ => s.mem

def run (i : Instr) (s : State) : State where
  x := match i.result s with
    | some (rd, v) => s.set rd v
    | none => s.x
  pc := (i.target s).getD (wrap (s.pc + 4))
  mem := i.memory s

/-- every byte that the instruction touches is inside a memory of `size` bytes -/
def inRange (i : Instr) (size : ℕ) (s : State) : Bool := (i.access s).all fun p => p.1 + p.2 ≤ size

/-- instructions without a data access run wherever they decode -/
theorem bind_inRange {α β : Type} {f : α → Instr} {size : ℕ} {s : State} (h : ∀ a, (f a).access s = none)
    (g : Instr → β) (d : Option α) :
    ((d.map f).bind fun i => if i.inRange size s then some (g i) else none) = d.map fun a => g (f a) := by
  cases d with
  | none => rfl
  | some a =>
    have hr : (f a).inRange size s = true := by
      unfold inRange
      rw [h]
      rfl
    simp [hr]

/-- the instruction does not jump to a misaligned target -/
def targetAligned (i : Instr) (s : State) : Bool := (i.target s).all fun a => a % 4 = 0

/-- the state after an instruction; none where the specification raises an exception -/
def exec (i : Instr) (size : ℕ) (s : State) : Option State :=
  if i.inRange size s && i.targetAligned s then some (i.run s) else none

end Instr

end Isa

end Rv32im
