/-
When the opcode switch returns, and what it reports to the timing, for memories of any size.

- `Isa.Instr.kind`: the kind of an instruction: its data address, whether its branch is taken.
- `effect_kind`: the switch returns exactly where the word decodes and its data access is inside memory, with the kind
  of the instruction that the word decodes to.
-/
import Rv32im.Isa.Correct

namespace Rv32im

/-- what an instruction is to the counters and to the timing -/
def Isa.Instr.kind (i : Isa.Instr) (st : Isa.State) : Kind :=
  match i with
  | .jal _ _ => .jump
  | .jalr _ _ _ => .jump
  | .branch c rs1 rs2 _ => .branch (c.holds (st.x rs1) (st.x rs2))
  | .load _ _ _ rs1 imm => .load (BitVec.ofNat 32 (Isa.wrap (st.x rs1 + imm)))
  | .store _ rs1 _ imm => .store (BitVec.ofNat 32 (Isa.wrap (st.x rs1 + imm)))
  | .mulDiv _ _ _ _ => .mulDiv
  | .ecall => .system
  | .ebreak => .system
  | _ => .alu

section Returns

variable {m : Memory} (pc insn addr : BitVec 32)

/-- a checked access returns exactly inside memory -/
theorem checkRange_isSome {α : Type} (width : ℕ) (v : α) :
    (do m.checkRange addr width; .ok v : Except Exn α).toOption.isSome = decide (addr.toNat + width ≤ m.size) := by
  rw [Memory.checkRange_bind]
  split_ifs with h
  · simp only [Except.toOption, Option.isSome_none]
    exact (decide_eq_false (by omega)).symm
  · exact (decide_eq_true (by omega)).symm

theorem loadValue_isSome :
    (loadValue m pc insn addr).toOption.isSome =
      (Isa.decodeLoad (funct3 insn)).any fun p => addr.toNat + p.1.bytes ≤ m.size := by
  have hlt₃ := funct3_lt insn
  have hbind : ∀ {n : ℕ} {f : BitVec n → BitVec 32} (y : Except Exn (BitVec n)),
      (do return f (← y) : Except Exn (BitVec 32)).toOption.isSome = y.toOption.isSome := by
    intro n f y
    cases y <;> rfl
  unfold loadValue
  generalize funct3 insn = f₃ at hlt₃ ⊢
  interval_cases f₃
  · exact (hbind _).trans (checkRange_isSome addr 1 _)
  · exact (hbind _).trans (checkRange_isSome addr 2 _)
  · exact checkRange_isSome addr 4 _
  · rfl
  · exact (hbind _).trans (checkRange_isSome addr 1 _)
  · exact (hbind _).trans (checkRange_isSome addr 2 _)
  · rfl
  · rfl

theorem storeValue_isSome (b : BitVec 32) :
    (storeValue m pc insn addr b).toOption.isSome =
      (Isa.decodeStore (funct3 insn)).any fun w => addr.toNat + w.bytes ≤ m.size := by
  have hlt₃ := funct3_lt insn
  unfold storeValue
  generalize funct3 insn = f₃ at hlt₃ ⊢
  interval_cases f₃
  · exact checkRange_isSome addr 1 _
  · exact checkRange_isSome addr 2 _
  · exact checkRange_isSome addr 4 _
  all_goals rfl

end Returns

/-- an effect of a fixed kind, built from a value -/
theorem map_kind {α : Type} {f : α → Effect} {k : Kind} (hf : ∀ v, (f v).kind = k) (x : Except Exn α) :
    (x.map f).toOption.map Effect.kind = if x.toOption.isSome then some k else none := by
  cases x with
  | error e => rfl
  | ok v => exact congrArg some (hf v)

theorem isSome_of_map {α β γ : Type} {x : Option α} {d : Option β} {f : α → γ} {g : β → γ}
    (h : x.map f = d.map g) : x.isSome = d.isSome := by
  have hs := congrArg Option.isSome h
  rwa [Option.isSome_map, Option.isSome_map] at hs

theorem eq_ofNat {a : BitVec 32} {n : ℕ} (h : a.toNat = n) : a = BitVec.ofNat 32 n := by
  rw [← h, BitVec.ofNat_toNat, BitVec.setWidth_eq]

/-- **When the opcode switch returns**, and the kind that it reports. -/
theorem effect_kind (m : Memory) (r : Regs) (pc insn : BitVec 32) :
    (effect m r pc insn).toOption.map Effect.kind = (Isa.decode insn.toNat).bind fun i =>
      if i.inRange m.size (isaState m r pc) then some (i.kind (isaState m r pc)) else none := by
  have hif : ∀ {α : Type} (d : Option α) (k : Kind), (if d.isSome then some k else none) = d.map fun _ => k := by
    intro α d k
    cases d <;> rfl
  unfold effect
  simp only [opcode_eq, rs1_eq, rs2_eq]
  split <;> rename_i hop
  · -- LUI
    simp only [Isa.decode, hop]
    rfl
  · -- AUIPC
    simp only [Isa.decode, hop]
    rfl
  · -- JAL
    simp only [Isa.decode, hop]
    rfl
  · -- JALR
    simp only [Isa.decode, hop, ← funct3_eq]
    by_cases hf : funct3 insn = 0
    · rw [if_neg (not_not.2 hf), if_pos hf]
      rfl
    · rw [if_pos hf, if_neg hf]
      rfl
  · -- branches
    simp only [Isa.decode, hop, ← funct3_eq, branchTake_eq]
    rw [Isa.Instr.bind_inRange fun _ => rfl]
    cases Isa.decodeCond (funct3 insn) <;> rfl
  · -- loads
    simp only [Isa.decode, hop, ← funct3_eq]
    have haddr := add_imm_toNat (r (Isa.reg insn.toNat 15)) (immI_toNat insn)
    refine (map_kind (k := .load _) (fun _ => rfl) _).trans ?_
    rw [loadValue_isSome, haddr, eq_ofNat haddr]
    cases Isa.decodeLoad (funct3 insn) <;> rfl
  · -- stores
    simp only [Isa.decode, hop, ← funct3_eq]
    have haddr := add_imm_toNat (r (Isa.reg insn.toNat 15)) (immS_toNat insn)
    refine (map_kind (k := .store _) (fun _ => rfl) _).trans ?_
    rw [storeValue_isSome, haddr, eq_ofNat haddr]
    cases Isa.decodeStore (funct3 insn) <;> rfl
  · -- OP-IMM
    simp only [Isa.decode, hop, ← funct3_eq, ← funct7_eq]
    refine (map_kind (k := .alu) (fun _ => rfl) _).trans ?_
    rw [isSome_of_map (opImmValue_eq pc insn _), hif, Isa.Instr.bind_inRange fun _ => rfl]
    rfl
  · -- OP
    simp only [Isa.decode, hop, ← funct3_eq, ← funct7_eq]
    by_cases hm : funct7 insn = 1
    · rw [if_pos hm, if_pos hm]
      refine (map_kind (k := .mulDiv) (fun _ => rfl) _).trans ?_
      rw [isSome_of_map (mulDivValue_eq pc insn _ _), hif, Isa.Instr.bind_inRange fun _ => rfl]
      rfl
    · rw [if_neg hm, if_neg hm]
      refine (map_kind (k := .alu) (fun _ => rfl) _).trans ?_
      rw [isSome_of_map (opValue_eq pc insn _ _), hif, Isa.Instr.bind_inRange fun _ => rfl]
      rfl
  · -- MISC-MEM
    simp only [Isa.decode, hop]
    rfl
  · -- SYSTEM
    have hcall : insn = 0x00000073 ↔ insn.toNat = 0x00000073 := BitVec.toNat_inj.symm
    have hbreak : insn = 0x00100073 ↔ insn.toNat = 0x00100073 := BitVec.toNat_inj.symm
    simp only [Isa.decode, hop, hcall, hbreak]
    by_cases h1 : insn.toNat = 0x00000073
    · rw [if_pos (Or.inl h1), if_pos h1]
      rfl
    · rw [if_neg h1]
      by_cases h2 : insn.toNat = 0x00100073
      · rw [if_pos (Or.inr h2), if_pos h2]
        rfl
      · rw [if_neg (not_or.2 ⟨h1, h2⟩), if_neg h2]
        rfl
  · have hnone : Isa.decode insn.toNat = none := by
      unfold Isa.decode
      split <;> first | contradiction | rfl
    rw [hnone]
    rfl

end Rv32im
