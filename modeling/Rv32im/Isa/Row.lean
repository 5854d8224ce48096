/-
What the opcode switch writes to a register, and the retirement row that it fills.

- `effect_result`: the register write of an effect is the result of the instruction that the word decodes to.
- `event_row`: so the event of an effect is the row of that instruction, without its cycle and its number.
-/
import Rv32im.Isa.Kind
import Rv32im.Isa.Machine

namespace Rv32im

/-- the register write of an effect, as numbers -/
def Effect.result (e : Effect) : Option (Fin 32 × ℕ) := e.wr.map fun p => (p.1, p.2.toNat)

/-- an effect that writes a computed value -/
theorem map_result (k : Kind) (m : Memory) (next insn : BitVec 32) (x : Except Exn (BitVec 32)) :
    ((x.map fun v => (⟨k, next, some (rd insn, v), m⟩ : Effect)).toOption.map Effect.result) =
      (x.toOption.map BitVec.toNat).map fun v => some (Isa.reg insn.toNat 7, v) := by
  cases x with
  | error e => rfl
  | ok v =>
    rw [← rd_eq]
    rfl

/-- **The register write of the opcode switch** is the result of the instruction. -/
theorem effect_result (m : Memory) (r : Regs) (pc insn : BitVec 32) (hsize : m.size ≤ 2 ^ 32) :
    (effect m r pc insn).toOption.map Effect.result = (Isa.decode insn.toNat).bind fun i =>
      if i.inRange m.size (isaState m r pc) then some (i.result (isaState m r pc)) else none := by
  have hwrite : ∀ (k : Kind) (next v : BitVec 32) {n : ℕ}, v.toNat = n →
      (Effect.result ⟨k, next, some (rd insn, v), m⟩) = some (Isa.reg insn.toNat 7, n) := by
    intro k next v n hv
    rw [← hv, ← rd_eq]
    rfl
  unfold effect
  simp only [opcode_eq, rs1_eq, rs2_eq]
  split <;> rename_i hop
  · -- LUI
    simp only [Isa.decode, hop]
    exact congrArg some (hwrite _ _ _ (immU_toNat insn))
  · -- AUIPC
    simp only [Isa.decode, hop]
    exact congrArg some (hwrite _ _ _ (add_imm_toNat pc (immU_toNat insn)))
  · -- JAL
    simp only [Isa.decode, hop]
    exact congrArg some (hwrite _ _ _ (next_toNat pc))
  · -- JALR
    simp only [Isa.decode, hop, ← funct3_eq]
    by_cases hf : funct3 insn = 0
    · rw [if_neg (not_not.2 hf), if_pos hf]
      exact congrArg some (hwrite _ _ _ (next_toNat pc))
    · rw [if_pos hf, if_neg hf]
      rfl
  · -- branches
    simp only [Isa.decode, hop, ← funct3_eq, branchTake_eq]
    rw [Isa.Instr.bind_inRange fun _ => rfl]
    cases Isa.decodeCond (funct3 insn) <;> rfl
  · -- loads
    simp only [Isa.decode, hop, ← funct3_eq]
    rw [map_result, loadValue_eq _ _ _ _ hsize, add_imm_toNat _ (immI_toNat insn)]
    cases Isa.decodeLoad (funct3 insn) with
    | none => rfl
    | some p =>
      simp only [Option.bind_some, Option.map_some, Isa.Instr.inRange, Isa.Instr.access, Option.all_some,
        decide_eq_true_eq, apply_ite (Option.map _), Option.map_none]
      rfl
  · -- stores
    simp only [Isa.decode, hop, ← funct3_eq]
    have hstore := storeValue_isSome (m := m) pc insn (r (Isa.reg insn.toNat 15) + immS insn)
      (r (Isa.reg insn.toNat 20))
    rw [add_imm_toNat _ (immS_toNat insn)] at hstore
    have hnone : ∀ x : Except Exn Memory, (x.map fun m' => (⟨.store (r (Isa.reg insn.toNat 15) + immS insn), pc + 4,
        none, m'⟩ : Effect)).toOption.map Effect.result = if x.toOption.isSome then some none else none := by
      intro x
      cases x <;> rfl
    rw [hnone, hstore]
    cases Isa.decodeStore (funct3 insn) <;> rfl
  · -- OP-IMM
    simp only [Isa.decode, hop, ← funct3_eq, ← funct7_eq]
    rw [map_result, opImmValue_eq, Isa.Instr.bind_inRange fun _ => rfl, Option.map_map]
    rfl
  · -- OP
    simp only [Isa.decode, hop, ← funct3_eq, ← funct7_eq]
    by_cases hm : funct7 insn = 1
    · rw [if_pos hm, if_pos hm, map_result, mulDivValue_eq, Isa.Instr.bind_inRange fun _ => rfl, Option.map_map]
      rfl
    · rw [if_neg hm, if_neg hm, map_result, opValue_eq, Isa.Instr.bind_inRange fun _ => rfl, Option.map_map]
      rfl
  · -- MISC-MEM
    simp only [Isa.decode, hop]
    rfl
  · -- SYSTEM
    have hcall : insn = 0x00000073 ↔ insn.toNat = 0x00000073 := BitVec.toNat_inj.symm
    have hbreak : insn = 0x00100073 ↔ insn.toNat = 0x00100073 := BitVec.toNat_inj.symm
    simp only [Isa.decode, hop, hcall, hbreak]
    by_cases h1 : insn.toNat = 0x00000073
    · rw [if_pos (Or.inl h1), if_pos h1]
      rfl
    · rw [if_neg h1]
      by_cases h2 : insn.toNat = 0x00100073
      · rw [if_pos (Or.inr h2), if_pos h2]
        rfl
      · rw [if_neg (not_or.2 ⟨h1, h2⟩), if_neg h2]
        rfl
  · have hnone : Isa.decode insn.toNat = none := by
      unfold Isa.decode
      split <;> first | contradiction | rfl
    rw [hnone]
    rfl

/-- the data access that a row shows is the one of the kind -/
theorem Isa.Instr.access_kind (i : Isa.Instr) (st : Isa.State) :
    (∀ a, i.kind st = .load a → i.loads = true ∧ i.stores = false ∧
      a = BitVec.ofNat 32 ((i.access st).elim 0 Prod.fst)) ∧
    (∀ a, i.kind st = .store a → i.loads = false ∧ i.stores = true ∧
      a = BitVec.ofNat 32 ((i.access st).elim 0 Prod.fst)) ∧
    ((i.kind st).mem = none → i.loads = false ∧ i.stores = false ∧ i.access st = none) ∧
    (i.kind st = .system ↔ i.stops = true) := by
  cases i with
  | load w sign rd rs1 imm =>
    refine ⟨fun a h => ⟨rfl, rfl, (Kind.load.inj h).symm⟩, fun a h => ?_, fun h => ?_, ?_⟩
    · cases h
    · cases h
    · simp [kind, stops]
  | store w rs1 rs2 imm =>
    refine ⟨fun a h => ?_, fun a h => ⟨rfl, rfl, (Kind.store.inj h).symm⟩, fun h => ?_, ?_⟩
    · cases h
    · cases h
    · simp [kind, stops]
  | _ =>
    refine ⟨fun a h => ?_, fun a h => ?_, fun _ => ⟨rfl, rfl, rfl⟩, ?_⟩
    · cases h
    · cases h
    · simp [kind, stops]

/-- **The event of an effect** is the row of its instruction. -/
theorem event_row {m : Memory} {r : Regs} {pc : BitVec 32} (insn : BitVec 32) {e : Effect} {i : Isa.Instr}
    (hkind : e.kind = i.kind (isaState m r pc)) (hresult : e.result = i.result (isaState m r pc)) (k : ℕ) :
    { e.event pc insn with retired := k } = i.row (isaState m r pc) insn.toNat k := by
  obtain ⟨hload, hstore, hnone, -⟩ := i.access_kind (isaState m r pc)
  have hpc : BitVec.ofNat 32 (isaState m r pc).pc = pc := (eq_ofNat rfl).symm
  have hinsn : BitVec.ofNat 32 insn.toNat = insn := (eq_ofNat rfl).symm
  unfold Isa.Instr.row
  rw [hpc, hinsn, ← hresult]
  rw [← hkind] at hload hstore hnone
  obtain ⟨kind, next, wr, mem⟩ := e
  dsimp only at hload hstore hnone
  have hval : ∀ v : BitVec 32, BitVec.ofNat 32 v.toNat = v := fun v => (eq_ofNat rfl).symm
  cases kind with
  | load a =>
    obtain ⟨h1, h2, h3⟩ := hload a rfl
    rcases wr with _ | ⟨d, v⟩ <;> simp [Effect.event, Effect.result, h1, h2, ← h3, hval]
  | store a =>
    obtain ⟨h1, h2, h3⟩ := hstore a rfl
    rcases wr with _ | ⟨d, v⟩ <;> simp [Effect.event, Effect.result, h1, h2, ← h3, hval]
  | _ =>
    obtain ⟨h1, h2, h3⟩ := hnone rfl
    rcases wr with _ | ⟨d, v⟩ <;> simp [Effect.event, Effect.result, h1, h2, h3, hval]

end Rv32im
