/-
The register results that the model computes, as numbers: branch conditions, ALU, multiplier and divider.

Each result is an equation between options. The model's function returns exactly where the encoding decodes, and then
it returns the number of the instruction set.

- `Isa.Alu.onBits_toNat`, `Isa.MulDiv.onBits_toNat`: the operations on patterns compute those on numbers.
- `branchTake_eq`, `opImmValue_eq`, `opValue_eq`, `mulDivValue_eq`: the functions of the model.
-/
import Rv32im.Isa.Fields
import Rv32im.Model.Cpu

namespace Rv32im

/-! ## Patterns and integers -/

theorem asI32_eq (a : BitVec 32) : asI32 a = Isa.signed 32 a.toNat := by
  unfold asI32 Isa.signed
  rw [BitVec.toInt_eq_toNat_cond]
  split_ifs <;> omega

theorem ofInt_toNat (v : ℤ) : (BitVec.ofInt 32 v).toNat = Isa.wrap v := BitVec.toNat_ofInt v

theorem toNat_of_toInt {a : BitVec 32} {v : ℤ} (h : a.toInt = v) : a.toNat = Isa.wrap v := by
  rw [← ofInt_toNat, ← h, BitVec.ofInt_toInt]

theorem add_toNat (a b : BitVec 32) : (a + b).toNat = Isa.wrap (a.toNat + b.toNat) := by
  rw [BitVec.toNat_add]
  unfold Isa.wrap
  omega

theorem sub_toNat (a b : BitVec 32) : (a - b).toNat = Isa.wrap (a.toNat - b.toNat) := by
  have ha := a.isLt
  have hb := b.isLt
  rw [BitVec.toNat_sub]
  unfold Isa.wrap
  omega

/-- an address or a target: a register or the pc, and an immediate -/
theorem add_imm_toNat (a : BitVec 32) {b : BitVec 32} {imm : ℤ} (h : b.toNat = Isa.wrap imm) :
    (a + b).toNat = Isa.wrap (a.toNat + imm) := by
  rw [add_toNat, h, Isa.wrap_add_wrap]

theorem bool_toNat (p : Prop) [Decidable p] : (if p then 1 else 0 : BitVec 32).toNat = if p then 1 else 0 := by
  split_ifs <;> rfl

/-- a shift amount: the lowest five bits -/
theorem and_31 (n : ℕ) : n &&& 0x1f = n % 32 := Nat.and_two_pow_sub_one_eq_mod n 5

theorem shl_toNat (a : BitVec 32) (n : ℕ) : (a <<< n).toNat = Isa.wrap (a.toNat * 2 ^ n) := by
  rw [BitVec.toNat_shiftLeft, Nat.shiftLeft_eq]
  have hcast : (a.toNat : ℤ) * 2 ^ n = ((a.toNat * 2 ^ n : ℕ) : ℤ) := by push_cast; rfl
  rw [hcast]
  unfold Isa.wrap
  omega

theorem sra_toNat (a : BitVec 32) (n : ℕ) : (a.sshiftRight n).toNat = Isa.wrap (Isa.signed 32 a.toNat / 2 ^ n) := by
  refine toNat_of_toInt ?_
  rw [BitVec.toInt_sshiftRight, Int.shiftRight_eq_div_pow, ← asI32_eq]
  push_cast
  rfl

/-! ## Register results -/

theorem branchTake_eq (f : ℕ) (a b : BitVec 32) :
    branchTake f a b = (Isa.decodeCond f).map fun c => c.holds a.toNat b.toNat := by
  unfold branchTake Isa.decodeCond
  split <;> simp [Isa.Cond.holds, ← asI32_eq, BitVec.lt_def, BitVec.le_def, ← BitVec.toNat_inj]

/-- the operations of the ALU on two patterns, each with the name that the instruction set gives it -/
def Isa.Alu.onBits (f : Isa.Alu) (a b : BitVec 32) : BitVec 32 :=
  match f with
  | .add => a + b
  | .sub => a - b
  | .sll => a <<< (b &&& 0x1f).toNat
  | .slt => if asI32 a < asI32 b then 1 else 0
  | .sltu => if a < b then 1 else 0
  | .xor => a ^^^ b
  | .srl => a >>> (b &&& 0x1f).toNat
  | .sra => a.sshiftRight (b &&& 0x1f).toNat
  | .or => a ||| b
  | .and => a &&& b

theorem shift_amount (b : BitVec 32) : (b &&& 0x1f).toNat = b.toNat % 32 := and_31 b.toNat

theorem Isa.Alu.onBits_toNat (f : Isa.Alu) (a b : BitVec 32) : (f.onBits a b).toNat = f.eval a.toNat b.toNat := by
  cases f with
  | add => exact add_toNat a b
  | sub => exact sub_toNat a b
  | sll => rw [onBits, shl_toNat, shift_amount]; rfl
  | slt => rw [onBits, bool_toNat, asI32_eq, asI32_eq]; rfl
  | sltu => exact bool_toNat _
  | xor => exact BitVec.toNat_xor a b
  | srl => rw [onBits, BitVec.toNat_ushiftRight, Nat.shiftRight_eq_div_pow, shift_amount]; rfl
  | sra => rw [onBits, sra_toNat, shift_amount]; rfl
  | or => exact BitVec.toNat_or a b
  | and => exact BitVec.toNat_and a b

/-- a value that is computed exactly where an operation decodes -/
theorem toNat_of_onBits {x : Except Exn (BitVec 32)} {d : Option Isa.Alu} {a b : BitVec 32}
    (h : x.toOption = d.map fun f => f.onBits a b) :
    x.toOption.map BitVec.toNat = d.map fun f => f.eval a.toNat b.toNat := by
  rw [h, Option.map_map]
  congr 1
  funext f
  exact f.onBits_toNat a b

/-- the ALU operations on two registers -/
theorem opValue_eq (pc insn a b : BitVec 32) :
    (opValue pc insn a b).toOption.map BitVec.toNat =
      (Isa.decodeAlu (funct3 insn) (funct7 insn)).map fun f => f.eval a.toNat b.toNat := by
  have hlt₃ := funct3_lt insn
  refine toNat_of_onBits ?_
  unfold opValue
  generalize funct3 insn = f₃ at hlt₃ ⊢
  generalize funct7 insn = f₇
  unfold Isa.decodeAlu
  -- the eight values of funct3, for each of the two values of funct7 that are encoded and for the others
  rcases eq_or_ne f₇ 0 with rfl | h0
  · interval_cases f₃ <;> rfl
  rcases eq_or_ne f₇ 0x20 with rfl | h20
  · interval_cases f₃ <;> rfl
  · interval_cases f₃ <;> simp only [h0, h20, if_false, if_true, ne_eq, not_false_eq_true] <;> rfl

/-- the shift amount of SLLI, SRLI and SRAI is the lowest five bits of the immediate -/
theorem rs2_shift (insn : BitVec 32) : (rs2 insn).val &&& 0x1f = (immI insn &&& 0x1f).toNat := by
  have hlt := field_lt insn.toNat 31 20
  have hrs2 : (rs2 insn).val = insn.toNat / 2 ^ 20 % 32 := congrArg Fin.val (rs2_eq insn)
  rw [shift_amount, immI_toNat, and_31, hrs2]
  unfold Isa.immI Isa.signed Isa.wrap Isa.field at *
  split_ifs <;> omega

/-- the ALU operations on a register and an immediate -/
theorem opImmValue_eq (pc insn a : BitVec 32) :
    (opImmValue pc insn a).toOption.map BitVec.toNat =
      (Isa.decodeImm (funct3 insn) (funct7 insn)).map fun f => f.eval a.toNat (Isa.wrap (Isa.immI insn.toNat)) := by
  rw [← immI_toNat]
  have hlt₃ := funct3_lt insn
  refine toNat_of_onBits ?_
  unfold opImmValue
  rw [rs2_shift]
  generalize funct3 insn = f₃ at hlt₃ ⊢
  generalize funct7 insn = f₇
  unfold Isa.decodeImm
  -- the eight values of funct3, for each of the two values of funct7 that are encoded and for the others
  rcases eq_or_ne f₇ 0 with rfl | h0
  · interval_cases f₃ <;> rfl
  rcases eq_or_ne f₇ 0x20 with rfl | h20
  · interval_cases f₃ <;> rfl
  · interval_cases f₃ <;> simp only [h0, h20, if_false, if_true, ne_eq, not_false_eq_true] <;> rfl

theorem zero_iff (b : BitVec 32) : b = 0 ↔ b.toNat = 0 := by
  rw [← BitVec.toNat_inj]
  rfl

theorem signed_min_iff {v : ℕ} (h : v < 2 ^ 32) : Isa.signed 32 v = -2 ^ 31 ↔ v = 0x80000000 := by
  unfold Isa.signed
  constructor <;> intro heq <;> split_ifs at * <;> omega

theorem signed_neg_one_iff (v : ℕ) : Isa.signed 32 v = -1 ↔ v = 0xffffffff := by
  unfold Isa.signed
  constructor <;> intro heq <;> split_ifs at * <;> omega

/-- the dividend and the divisor of the quotient 2^31 -/
theorem overflow_iff (a b : BitVec 32) :
    a = 0x80000000 ∧ b = 0xffffffff ↔ Isa.signed 32 a.toNat = -2 ^ 31 ∧ Isa.signed 32 b.toNat = -1 := by
  rw [signed_min_iff a.isLt, signed_neg_one_iff b.toNat, ← BitVec.toNat_inj, ← BitVec.toNat_inj]
  rfl

theorem ite_toNat (p : Prop) [Decidable p] (a b : BitVec 32) :
    (if p then a else b).toNat = if p then a.toNat else b.toNat := by
  split_ifs <;> rfl

/-- the multiplier and the divider on two patterns -/
def Isa.MulDiv.onBits (f : Isa.MulDiv) (a b : BitVec 32) : BitVec 32 :=
  match f with
  | .mul => BitVec.ofInt 32 (asI32 a * asI32 b)
  | .mulh => BitVec.ofInt 32 ((asI32 a * asI32 b) >>> (32 : ℕ))
  | .mulhsu => BitVec.ofInt 32 ((asI32 a * (b.toNat : ℤ)) >>> (32 : ℕ))
  | .mulhu => BitVec.ofNat 32 ((a.toNat * b.toNat) >>> 32)
  | .div =>
    if b = 0 then 0xffffffff
    else if a = 0x80000000 ∧ b = 0xffffffff then 0x80000000
    else BitVec.ofInt 32 ((asI32 a).tdiv (asI32 b))
  | .divu => if b = 0 then 0xffffffff else a / b
  | .rem =>
    if b = 0 then a
    else if a = 0x80000000 ∧ b = 0xffffffff then 0
    else BitVec.ofInt 32 ((asI32 a).tmod (asI32 b))
  | .remu => if b = 0 then a else a % b

theorem Isa.MulDiv.onBits_toNat (f : Isa.MulDiv) (a b : BitVec 32) :
    (f.onBits a b).toNat = f.eval a.toNat b.toNat := by
  have hshift : ∀ v : ℤ, v >>> (32 : ℕ) = v / 2 ^ 32 := fun v => Int.shiftRight_eq_div_pow v 32
  cases f with
  | mul =>
    rw [onBits, ofInt_toNat, asI32_eq, asI32_eq]
    -- a pattern and its signed value have one residue, and so have the products
    refine Isa.wrap_eq_of_emod ?_
    exact Int.ModEq.mul (Isa.signed_modEq a.toNat) (Isa.signed_modEq b.toNat)
  | mulh => rw [onBits, ofInt_toNat, hshift, asI32_eq, asI32_eq]; rfl
  | mulhsu => rw [onBits, ofInt_toNat, hshift, asI32_eq]; rfl
  | mulhu =>
    have hlt : a.toNat * b.toNat / 2 ^ 32 < 2 ^ 32 :=
      (Nat.div_lt_iff_lt_mul (by positivity)).mpr (Nat.mul_lt_mul'' a.isLt b.isLt)
    rw [onBits, BitVec.toNat_ofNat, Nat.shiftRight_eq_div_pow, Nat.mod_eq_of_lt hlt]
    exact (Isa.wrap_natCast hlt).symm
  | div =>
    rw [onBits, ite_toNat, ite_toNat, ofInt_toNat, asI32_eq, asI32_eq]
    simp only [zero_iff, overflow_iff]
    unfold Isa.MulDiv.eval
    split_ifs with h0 hmin
    · rfl
    · exact ((signed_min_iff a.isLt).mp hmin.1).symm
    · rfl
  | divu =>
    rw [onBits, ite_toNat, BitVec.toNat_udiv]
    simp only [zero_iff]
    rfl
  | rem =>
    rw [onBits, ite_toNat, ite_toNat, ofInt_toNat, asI32_eq, asI32_eq]
    simp only [zero_iff, overflow_iff]
    rfl
  | remu =>
    rw [onBits, ite_toNat, BitVec.toNat_umod]
    simp only [zero_iff]
    rfl

/-- the multiplier and the divider -/
theorem mulDivValue_eq (pc insn a b : BitVec 32) :
    (mulDivValue pc insn a b).toOption.map BitVec.toNat =
      (Isa.decodeMulDiv (funct3 insn)).map fun f => f.eval a.toNat b.toNat := by
  have hlt₃ := funct3_lt insn
  have h : (mulDivValue pc insn a b).toOption = (Isa.decodeMulDiv (funct3 insn)).map fun f => f.onBits a b := by
    unfold mulDivValue
    generalize funct3 insn = f₃ at hlt₃ ⊢
    interval_cases f₃ <;> try rfl
    all_goals
      simp only [Isa.decodeMulDiv, Option.map_some, Isa.MulDiv.onBits]
      split_ifs <;> rfl
  rw [h, Option.map_map]
  congr 1
  funext f
  exact f.onBits_toNat a b

end Rv32im
