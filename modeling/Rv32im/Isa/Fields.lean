/-
The bit-vector fields and immediates of the model, as numbers.

- `signExtend_toNat`: `sign_extend` returns the pattern of the two's complement value.
- `or_toNat`: a disjunction of fields at their positions is a sum.
- `rd_eq` … `funct7_eq`: the fields of a word.
- `immI_toNat` … `immU_toNat`: the immediates of the model are the patterns of the immediates of the instruction set.
-/
import Rv32im.Isa.Spec
import Rv32im.Model.Basic

namespace Rv32im

/-! ## Sign extension -/

/-- flipping the highest bit of a pattern -/
theorem flip_top {n k : ℕ} (h : n < 2 * 2 ^ k) : n ^^^ 2 ^ k = if n < 2 ^ k then n + 2 ^ k else n - 2 ^ k := by
  have hpos : 0 < 2 ^ k := by positivity
  have hdiv : (n ^^^ 2 ^ k) / 2 ^ k = n / 2 ^ k ^^^ 1 := by rw [Nat.xor_div_two_pow, Nat.div_self hpos]
  have hmod : (n ^^^ 2 ^ k) % 2 ^ k = n % 2 ^ k := by rw [Nat.xor_mod_two_pow, Nat.mod_self, Nat.xor_zero]
  have hsplit := Nat.div_add_mod (n ^^^ 2 ^ k) (2 ^ k)
  rw [hdiv, hmod] at hsplit
  split_ifs with hlt
  · rw [Nat.div_eq_of_lt hlt, Nat.mod_eq_of_lt hlt] at hsplit
    simp at hsplit
    omega
  · have hone : n / 2 ^ k = 1 := Nat.div_eq_of_lt_le (by omega) (by omega)
    have hn := Nat.div_add_mod n (2 ^ k)
    rw [hone] at hsplit hn
    simp at hsplit
    omega

theorem signExtend_toNat (value : BitVec 32) {width : ℕ} (h0 : 0 < width) (h : width ≤ 32) :
    (signExtend value width).toNat = Isa.wrap (Isa.signed width (value.toNat % 2 ^ width)) := by
  obtain ⟨k, rfl⟩ : ∃ k, width = k + 1 := ⟨width - 1, by omega⟩
  have hle : (2 : ℕ) ^ k ≤ 2 ^ 31 := Nat.pow_le_pow_right (by decide) (by omega)
  have hsucc : (2 : ℕ) ^ (k + 1) = 2 * 2 ^ k := Nat.pow_succ'
  have hn : value.toNat % 2 ^ (k + 1) < 2 * 2 ^ k := hsucc ▸ Nat.mod_lt _ (by positivity)
  have hsign : (1#32 <<< k).toNat = 2 ^ k := by
    rw [BitVec.toNat_shiftLeft, BitVec.toNat_ofNat, Nat.shiftLeft_eq]
    omega
  have hmasked : (value &&& if k + 1 = 32 then 0xffffffff#32 else (1#32 <<< (k + 1)) - 1#32).toNat =
      value.toNat % 2 ^ (k + 1) := by
    rw [BitVec.toNat_and, mask_toNat h, Nat.and_two_pow_sub_one_eq_mod]
  unfold signExtend
  simp only [Nat.add_sub_cancel]
  rw [BitVec.toNat_sub, BitVec.toNat_xor, hmasked, hsign, flip_top hn]
  have hpow : ((2 : ℤ) ^ (k + 1)) = 2 * ((2 ^ k : ℕ) : ℤ) := by
    push_cast
    exact pow_succ' 2 k
  unfold Isa.signed Isa.wrap
  rw [Nat.add_sub_cancel, hpow]
  generalize value.toNat % 2 ^ (k + 1) = n at hn ⊢
  generalize (2 : ℕ) ^ k = p at *
  split_ifs <;> omega

/-! ## Fields -/

theorem bits_field (value : BitVec 32) {hi lo : ℕ} (h : hi - lo + 1 ≤ 32) :
    (bits value hi lo).toNat = Isa.field value.toNat hi lo := bits_toNat value h

/-- a field moved to its position -/
theorem shift_toNat {x : BitVec 32} {k : ℕ} (h : x.toNat * 2 ^ k < 2 ^ 32) : (x <<< k).toNat = x.toNat * 2 ^ k := by
  rw [BitVec.toNat_shiftLeft, Nat.shiftLeft_eq, Nat.mod_eq_of_lt h]

theorem or_toNat {x y : BitVec 32} {k : ℕ} (hx : 2 ^ k ∣ x.toNat) (hy : y.toNat < 2 ^ k) :
    (x ||| y).toNat = x.toNat + y.toNat := by
  obtain ⟨a, ha⟩ := hx
  rw [BitVec.toNat_or, ha, Nat.two_pow_add_eq_or_of_lt hy]

/-- four fields at descending positions -/
theorem fields_toNat (x₃ x₂ x₁ x₀ : BitVec 32) {k₃ k₂ k₁ : ℕ} (k₀ : ℕ) (hk₂ : k₂ ≤ k₃) (hk₁ : k₁ ≤ k₂) (hk₃ : k₃ ≤ 32)
    (h₃ : x₃.toNat * 2 ^ k₃ < 2 ^ 32) (h₂ : x₂.toNat * 2 ^ k₂ < 2 ^ k₃) (h₁ : x₁.toNat * 2 ^ k₁ < 2 ^ k₂)
    (h₀ : x₀.toNat * 2 ^ k₀ < 2 ^ k₁) :
    ((x₃ <<< k₃) ||| (x₂ <<< k₂) ||| (x₁ <<< k₁) ||| (x₀ <<< k₀)).toNat =
      x₃.toNat * 2 ^ k₃ + x₂.toNat * 2 ^ k₂ + x₁.toNat * 2 ^ k₁ + x₀.toNat * 2 ^ k₀ := by
  have hmono : ∀ {i : ℕ}, i ≤ 32 → (2 : ℕ) ^ i ≤ 2 ^ 32 := by
    intro i hi
    exact Nat.pow_le_pow_right (by decide) hi
  have e₃ := shift_toNat h₃
  have e₂ := shift_toNat (h₂.trans_le (hmono hk₃))
  have e₁ := shift_toNat (h₁.trans_le (hmono (hk₂.trans hk₃)))
  have e₀ := shift_toNat (h₀.trans_le (hmono (hk₁.trans (hk₂.trans hk₃))))
  -- a sum of fields at and above a position is a multiple of its power
  have d₃ : ∀ {i : ℕ}, i ≤ k₃ → 2 ^ i ∣ x₃.toNat * 2 ^ k₃ := by
    intro i hi
    exact (pow_dvd_pow 2 hi).mul_left _
  have o₂ : ((x₃ <<< k₃) ||| (x₂ <<< k₂)).toNat = x₃.toNat * 2 ^ k₃ + x₂.toNat * 2 ^ k₂ := by
    rw [or_toNat (e₃ ▸ d₃ le_rfl) (e₂ ▸ h₂), e₃, e₂]
  have d₂ : ∀ {i : ℕ}, i ≤ k₂ → 2 ^ i ∣ x₃.toNat * 2 ^ k₃ + x₂.toNat * 2 ^ k₂ := by
    intro i hi
    apply (d₃ (hi.trans hk₂)).add
    exact (pow_dvd_pow 2 hi).mul_left _
  have o₁ : ((x₃ <<< k₃) ||| (x₂ <<< k₂) ||| (x₁ <<< k₁)).toNat =
      x₃.toNat * 2 ^ k₃ + x₂.toNat * 2 ^ k₂ + x₁.toNat * 2 ^ k₁ := by
    rw [or_toNat (o₂ ▸ d₂ le_rfl) (e₁ ▸ h₁), o₂, e₁]
  have d₁ : 2 ^ k₁ ∣ x₃.toNat * 2 ^ k₃ + x₂.toNat * 2 ^ k₂ + x₁.toNat * 2 ^ k₁ := (d₂ hk₁).add (Dvd.intro_left _ rfl)
  rw [or_toNat (o₁ ▸ d₁) (e₀ ▸ h₀), o₁, e₀]

theorem field_lt (word hi lo : ℕ) : Isa.field word hi lo < 2 ^ (hi - lo + 1) := Nat.mod_lt _ (by positivity)

section Words

variable (insn : BitVec 32)

theorem rd_eq : rd insn = Isa.reg insn.toNat 7 := Fin.ext (bits_toNat insn (by decide))
theorem rs1_eq : rs1 insn = Isa.reg insn.toNat 15 := Fin.ext (bits_toNat insn (by decide))
theorem rs2_eq : rs2 insn = Isa.reg insn.toNat 20 := Fin.ext (bits_toNat insn (by decide))
theorem opcode_eq : opcode insn = Isa.field insn.toNat 6 0 := bits_toNat insn (by decide)
theorem funct3_eq : funct3 insn = Isa.field insn.toNat 14 12 := bits_toNat insn (by decide)
theorem funct7_eq : funct7 insn = Isa.field insn.toNat 31 25 := bits_toNat insn (by decide)

theorem funct3_lt : funct3 insn < 8 := bits_lt insn (by decide)

/-- `insn & 0x7f`, as a script reads it -/
theorem mod_opcode : (insn.toNat : ℤ) % 128 = (opcode insn : ℤ) := by
  rw [opcode_eq]
  show (insn.toNat : ℤ) % 128 = ((insn.toNat / 2 ^ 0 % 2 ^ 7 : ℕ) : ℤ)
  rw [pow_zero, Nat.div_one]
  rfl

theorem immI_toNat : (immI insn).toNat = Isa.wrap (Isa.immI insn.toNat) := by
  have hlt := field_lt insn.toNat 31 20
  rw [immI, signExtend_toNat _ (by decide) (by decide), bits_field _ (by decide), Nat.mod_eq_of_lt hlt]
  rfl

theorem immS_toNat : (immS insn).toNat = Isa.wrap (Isa.immS insn.toNat) := by
  have hhi := field_lt insn.toNat 31 25
  have hlo := field_lt insn.toNat 11 7
  have ehi : (bits insn 31 25).toNat = Isa.field insn.toNat 31 25 := bits_field insn (by decide)
  have elo : (bits insn 11 7).toNat = Isa.field insn.toNat 11 7 := bits_field insn (by decide)
  have hshift : (bits insn 31 25 <<< 5).toNat = Isa.field insn.toNat 31 25 * 2 ^ 5 := by
    rw [shift_toNat (by omega), ehi]
  have hsum : ((bits insn 31 25 <<< 5) ||| bits insn 11 7).toNat =
      Isa.field insn.toNat 31 25 * 2 ^ 5 + Isa.field insn.toNat 11 7 := by
    rw [or_toNat (hshift ▸ Dvd.intro_left _ rfl) (elo ▸ hlo), hshift, elo]
  rw [immS, signExtend_toNat _ (by decide) (by decide), hsum, Nat.mod_eq_of_lt (by omega)]
  rfl

theorem immB_toNat : (immB insn).toNat = Isa.wrap (Isa.immB insn.toNat) := by
  have h₃ := field_lt insn.toNat 31 31
  have h₂ := field_lt insn.toNat 7 7
  have h₁ := field_lt insn.toNat 30 25
  have h₀ := field_lt insn.toNat 11 8
  have e₃ : (bits insn 31 31).toNat = Isa.field insn.toNat 31 31 := bits_field insn (by decide)
  have e₂ : (bits insn 7 7).toNat = Isa.field insn.toNat 7 7 := bits_field insn (by decide)
  have e₁ : (bits insn 30 25).toNat = Isa.field insn.toNat 30 25 := bits_field insn (by decide)
  have e₀ : (bits insn 11 8).toNat = Isa.field insn.toNat 11 8 := bits_field insn (by decide)
  have hsum := fields_toNat (bits insn 31 31) (bits insn 7 7) (bits insn 30 25) (bits insn 11 8) 1
    (show 11 ≤ 12 by decide) (show 5 ≤ 11 by decide) (by decide) (by omega) (by omega) (by omega) (by omega)
  rw [e₃, e₂, e₁, e₀] at hsum
  rw [immB, signExtend_toNat _ (by decide) (by decide), hsum, Nat.mod_eq_of_lt (by omega)]
  rfl

theorem immJ_toNat : (immJ insn).toNat = Isa.wrap (Isa.immJ insn.toNat) := by
  have h₃ := field_lt insn.toNat 31 31
  have h₂ := field_lt insn.toNat 19 12
  have h₁ := field_lt insn.toNat 20 20
  have h₀ := field_lt insn.toNat 30 21
  have e₃ : (bits insn 31 31).toNat = Isa.field insn.toNat 31 31 := bits_field insn (by decide)
  have e₂ : (bits insn 19 12).toNat = Isa.field insn.toNat 19 12 := bits_field insn (by decide)
  have e₁ : (bits insn 20 20).toNat = Isa.field insn.toNat 20 20 := bits_field insn (by decide)
  have e₀ : (bits insn 30 21).toNat = Isa.field insn.toNat 30 21 := bits_field insn (by decide)
  have hsum := fields_toNat (bits insn 31 31) (bits insn 19 12) (bits insn 20 20) (bits insn 30 21) 1
    (show 12 ≤ 20 by decide) (show 11 ≤ 12 by decide) (by decide) (by omega) (by omega) (by omega) (by omega)
  rw [e₃, e₂, e₁, e₀] at hsum
  rw [immJ, signExtend_toNat _ (by decide) (by decide), hsum, Nat.mod_eq_of_lt (by omega)]
  rfl

theorem immU_toNat : (immU insn).toNat = Isa.wrap (Isa.immU insn.toNat) := by
  have hlt := field_lt insn.toNat 31 12
  have hdiv : (immU insn).toNat / 2 ^ 12 = Isa.field insn.toNat 31 12 := by
    rw [immU, BitVec.toNat_and, Nat.and_div_two_pow]
    exact Nat.and_two_pow_sub_one_eq_mod _ 20
  have hmod : (immU insn).toNat % 2 ^ 12 = 0 := by
    rw [immU, BitVec.toNat_and, Nat.and_mod_two_pow]
    exact Nat.and_zero _
  rw [Isa.immU, Isa.wrap_signed (by omega)]
  omega

end Words

end Rv32im
