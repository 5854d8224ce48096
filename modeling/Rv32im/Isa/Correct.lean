/-
A step of the model computes the instruction set (`Isa/Spec.lean`).

- `effect_isa`: the functional half of the opcode switch returns exactly where the word decodes and its data access is
  inside memory, and then it is the instruction that the word decodes to.
- `step_computes_isa`: without an I-cache, a step computes what the instruction set defines for the word at the pc.
  `run_transparent` extends this to every cache configuration.
-/
import Rv32im.Isa.Access
import Rv32im.Timing.Charge

namespace Rv32im

/-! ## The effect of a word -/

/-- registers, pc and bytes, as numbers -/
def isaState (m : Memory) (r : Regs) (pc : BitVec 32) : Isa.State := ⟨fun i => (r i).toNat, pc.toNat, m.image⟩

/-- the state that an effect leaves, as numbers -/
def Effect.isa (e : Effect) (r : Regs) : Isa.State := isaState e.mem (Function.update (e.regs r) 0 0) e.nextPc

theorem Isa.Instr.run_jal (rd : Fin 32) (imm : ℤ) (st : Isa.State) :
    (Isa.Instr.jal rd imm).run st = ⟨st.set rd (Isa.wrap (st.pc + 4)), Isa.wrap (st.pc + imm), st.mem⟩ := rfl

theorem Isa.Instr.run_branch (c : Isa.Cond) (rs1 rs2 : Fin 32) (imm : ℤ) (st : Isa.State) :
    (Isa.Instr.branch c rs1 rs2 imm).run st = ⟨st.x, if c.holds (st.x rs1) (st.x rs2) then Isa.wrap (st.pc + imm)
      else Isa.wrap (st.pc + 4), st.mem⟩ := by
  have htarget : (branch c rs1 rs2 imm).target st =
      if c.holds (st.x rs1) (st.x rs2) then some (wrap (st.pc + imm)) else none := rfl
  unfold run
  rw [htarget]
  split_ifs <;> rfl

section Effects

variable (m : Memory) {r : Regs} (pc insn : BitVec 32)

theorem next_toNat : (pc + 4).toNat = Isa.wrap (pc.toNat + 4) := add_toNat pc 4

/-- the target of JALR -/
theorem clear_lowest (a : BitVec 32) : (a &&& ~~~1).toNat = a.toNat / 2 * 2 := by
  have hlt := a.isLt
  have hmask : (~~~1 : BitVec 32).toNat = 2 * (2 ^ 31 - 1) := rfl
  have hdiv : (a &&& ~~~1).toNat / 2 = a.toNat / 2 := by
    rw [BitVec.toNat_and, hmask, Nat.and_div_two, Nat.mul_div_cancel_left _ (by decide),
      Nat.and_two_pow_sub_one_eq_mod, Nat.mod_eq_of_lt (by omega)]
  have hmod : (a &&& ~~~1).toNat % 2 = 0 := by
    rw [BitVec.toNat_and, hmask]
    exact (Nat.and_mod_two_pow (n := 1)).trans (Nat.and_zero _)
  omega

/-- an effect that writes a register -/
theorem isa_write (h0 : r 0 = 0) (k : Kind) (next : BitVec 32) (m' : Memory) (d : Fin 32) (v : BitVec 32) :
    Effect.isa ⟨k, next, some (d, v), m'⟩ r = ⟨(isaState m r pc).set d v.toNat, next.toNat, m'.image⟩ := by
  unfold Effect.isa isaState Isa.State.set
  congr 1
  funext i
  by_cases hd : d = 0
  · rw [if_pos hd]
    rcases eq_or_ne i 0 with rfl | hi
    · simp [h0]
    · simp [Effect.regs, hd, hi]
  · rw [if_neg hd]
    rcases eq_or_ne i 0 with rfl | hi
    · simp [Function.update_of_ne (Ne.symm hd), h0]
    · rcases eq_or_ne i d with rfl | hid
      · simp [Effect.regs, hd]
      · simp [Effect.regs, hd, hi, hid]

/-- an effect that writes none -/
theorem isa_keep (h0 : r 0 = 0) (k : Kind) (next : BitVec 32) (m' : Memory) :
    Effect.isa ⟨k, next, none, m'⟩ r = ⟨(isaState m r pc).x, next.toNat, m'.image⟩ := by
  have hr : Function.update r 0 0 = r := by rw [← h0, Function.update_eq_self]
  unfold Effect.isa Effect.regs
  dsimp only
  rw [hr]
  rfl

/-- an effect that writes a computed value and goes on to the next instruction -/
theorem map_write (h0 : r 0 = 0) (k : Kind) (x : Except Exn (BitVec 32)) :
    ((x.map fun v => (⟨k, pc + 4, some (rd insn, v), m⟩ : Effect)).toOption.map fun e => e.isa r) =
      (x.toOption.map BitVec.toNat).map fun v =>
        ⟨(isaState m r pc).set (Isa.reg insn.toNat 7) v, Isa.wrap (pc.toNat + 4), m.image⟩ := by
  cases x with
  | error e => rfl
  | ok v =>
    refine congrArg some ((isa_write m pc h0 k (pc + 4) m (rd insn) v).trans ?_)
    rw [rd_eq, next_toNat]

/-- an effect that writes memory and goes on to the next instruction -/
theorem map_store (h0 : r 0 = 0) (k : Kind) (x : Except Exn Memory) :
    ((x.map fun m' => (⟨k, pc + 4, none, m'⟩ : Effect)).toOption.map fun e => e.isa r) =
      (x.toOption.map Memory.image).map fun mem => ⟨(isaState m r pc).x, Isa.wrap (pc.toNat + 4), mem⟩ := by
  cases x with
  | error e => rfl
  | ok m' =>
    refine congrArg some ((isa_keep m pc h0 k (pc + 4) m').trans ?_)
    rw [next_toNat]

/-- a load returns exactly where its width decodes and its bytes are inside memory -/
theorem load_isa (h0 : r 0 = 0) (hsize : m.size ≤ 2 ^ 32) :
    (((loadValue m pc insn (r (Isa.reg insn.toNat 15) + immI insn)).map fun v =>
      (⟨.load (r (Isa.reg insn.toNat 15) + immI insn), pc + 4, some (rd insn, v), m⟩ : Effect)).toOption.map
        fun e => e.isa r) =
      ((Isa.decodeLoad (funct3 insn)).map fun p => Isa.Instr.load p.1 p.2 (Isa.reg insn.toNat 7)
        (Isa.reg insn.toNat 15) (Isa.immI insn.toNat)).bind fun i =>
          if i.inRange m.size (isaState m r pc) then some (i.run (isaState m r pc)) else none := by
  rw [map_write m pc insn h0, loadValue_eq _ _ _ _ hsize, add_imm_toNat _ (immI_toNat insn)]
  cases Isa.decodeLoad (funct3 insn) with
  | none => rfl
  | some p =>
    obtain ⟨w, sign⟩ := p
    simp only [Option.bind_some, Option.map_some, Isa.Instr.inRange, Isa.Instr.access, Option.all_some,
      decide_eq_true_eq]
    by_cases hr : Isa.wrap ((isaState m r pc).x (Isa.reg insn.toNat 15) + Isa.immI insn.toNat) + w.bytes ≤ m.size
    · rw [if_pos hr]
      refine (congrArg (Option.map _) (if_pos hr)).trans ?_
      cases sign <;> rfl
    · rw [if_neg hr]
      exact congrArg (Option.map _) (if_neg hr)

/-- a store writes exactly where its width decodes and its bytes are inside memory -/
theorem store_isa (h0 : r 0 = 0) (hsize : m.size ≤ 2 ^ 32) :
    (((storeValue m pc insn (r (Isa.reg insn.toNat 15) + immS insn) (r (Isa.reg insn.toNat 20))).map fun m' =>
      (⟨.store (r (Isa.reg insn.toNat 15) + immS insn), pc + 4, none, m'⟩ : Effect)).toOption.map
        fun e => e.isa r) =
      ((Isa.decodeStore (funct3 insn)).map fun w => Isa.Instr.store w (Isa.reg insn.toNat 15)
        (Isa.reg insn.toNat 20) (Isa.immS insn.toNat)).bind fun i =>
          if i.inRange m.size (isaState m r pc) then some (i.run (isaState m r pc)) else none := by
  have hvalue := storeValue_eq m (r (Isa.reg insn.toNat 15) + immS insn) (r (Isa.reg insn.toNat 20)) pc insn hsize
  rw [add_imm_toNat _ (immS_toNat insn)] at hvalue
  rw [map_store m pc h0, hvalue]
  cases Isa.decodeStore (funct3 insn) with
  | none => rfl
  | some w =>
    simp only [Option.bind_some, Option.map_some, Isa.Instr.inRange, Isa.Instr.access, Option.all_some,
      decide_eq_true_eq]
    by_cases hr : Isa.wrap ((isaState m r pc).x (Isa.reg insn.toNat 15) + Isa.immS insn.toNat) + w.bytes ≤ m.size
    · rw [if_pos hr]
      exact congrArg (Option.map _) (if_pos hr)
    · rw [if_neg hr]
      exact congrArg (Option.map _) (if_neg hr)

/-- **The opcode switch computes the instruction set**: it returns exactly where the word decodes and its data access
is inside memory. -/
theorem effect_isa (h0 : r 0 = 0) (hsize : m.size ≤ 2 ^ 32) :
    ((effect m r pc insn).toOption.map fun e => e.isa r) = (Isa.decode insn.toNat).bind fun i =>
      if i.inRange m.size (isaState m r pc) then some (i.run (isaState m r pc)) else none := by
  unfold effect
  simp only [opcode_eq, rs1_eq, rs2_eq]
  split <;> rename_i hop
  · -- LUI
    simp only [Isa.decode, hop]
    refine congrArg some ((isa_write m pc h0 _ _ m _ _).trans ?_)
    rw [rd_eq, next_toNat, immU_toNat]
    rfl
  · -- AUIPC
    simp only [Isa.decode, hop]
    refine congrArg some ((isa_write m pc h0 _ _ m _ _).trans ?_)
    rw [rd_eq, next_toNat, add_imm_toNat pc (immU_toNat insn)]
    rfl
  · -- JAL
    simp only [Isa.decode, hop]
    refine congrArg some ((isa_write m pc h0 _ _ m _ _).trans ?_)
    rw [rd_eq, next_toNat, add_imm_toNat pc (immJ_toNat insn)]
    exact (Isa.Instr.run_jal _ _ (isaState m r pc)).symm
  · -- JALR
    simp only [Isa.decode, hop, ← funct3_eq]
    by_cases hf : funct3 insn = 0
    · rw [if_neg (not_not.2 hf), if_pos hf]
      refine congrArg some ((isa_write m pc h0 _ _ m _ _).trans ?_)
      rw [rd_eq, next_toNat, clear_lowest, add_imm_toNat _ (immI_toNat insn)]
      rfl
    · rw [if_pos hf, if_neg hf]
      rfl
  · -- branches
    simp only [Isa.decode, hop, ← funct3_eq, branchTake_eq]
    rw [Isa.Instr.bind_inRange fun _ => rfl]
    cases Isa.decodeCond (funct3 insn) with
    | none => rfl
    | some c =>
      refine congrArg some ((isa_keep m pc h0 _ _ m).trans ?_)
      rw [ite_toNat, next_toNat, add_imm_toNat _ (immB_toNat insn)]
      exact (Isa.Instr.run_branch c _ _ _ _).symm
  · -- loads
    simp only [Isa.decode, hop, ← funct3_eq]
    exact load_isa m pc insn h0 hsize
  · -- stores
    simp only [Isa.decode, hop, ← funct3_eq]
    exact store_isa m pc insn h0 hsize
  · -- OP-IMM
    simp only [Isa.decode, hop, ← funct3_eq, ← funct7_eq]
    rw [map_write m pc insn h0, opImmValue_eq, Isa.Instr.bind_inRange fun _ => rfl, Option.map_map]
    rfl
  · -- OP
    simp only [Isa.decode, hop, ← funct3_eq, ← funct7_eq]
    by_cases hm : funct7 insn = 1
    · rw [if_pos hm, if_pos hm, map_write m pc insn h0, mulDivValue_eq, Isa.Instr.bind_inRange fun _ => rfl,
        Option.map_map]
      rfl
    · rw [if_neg hm, if_neg hm, map_write m pc insn h0, opValue_eq, Isa.Instr.bind_inRange fun _ => rfl, Option.map_map]
      rfl
  · -- MISC-MEM
    simp only [Isa.decode, hop]
    refine congrArg some ((isa_keep m pc h0 _ _ m).trans ?_)
    rw [next_toNat]
    rfl
  · -- SYSTEM
    have hcall : insn = 0x00000073 ↔ insn.toNat = 0x00000073 := BitVec.toNat_inj.symm
    have hbreak : insn = 0x00100073 ↔ insn.toNat = 0x00100073 := BitVec.toNat_inj.symm
    have hkeep := isa_keep m pc h0 .system (pc + 4) m
    rw [next_toNat] at hkeep
    simp only [Isa.decode, hop, hcall, hbreak]
    by_cases h1 : insn.toNat = 0x00000073
    · rw [if_pos (Or.inl h1), if_pos h1]
      exact congrArg some hkeep
    · rw [if_neg h1]
      by_cases h2 : insn.toNat = 0x00100073
      · rw [if_pos (Or.inr h2), if_pos h2]
        exact congrArg some hkeep
      · rw [if_neg (not_or.2 ⟨h1, h2⟩), if_neg h2]
        rfl
  · have hnone : Isa.decode insn.toNat = none := by
      unfold Isa.decode
      split <;> first | contradiction | rfl
    rw [hnone]
    rfl

end Effects

/-! ## The step -/

/-- the architectural state, as numbers -/
def CpuModel.isa {cfg : CpuConfig} (s : CpuModel cfg) : Isa.State := isaState s.dataMemory s.regs s.pc

/-- **A step computes the instruction set.** Without an I-cache, a live model below its retirement limit whose pc is
aligned and inside memory does what the word at the pc decodes to, unless its operand is outside data memory or its
target is misaligned. -/
theorem step_computes_isa (cfg : CpuConfig) (hi : cfg.icache.enabled = false) (s : CpuModel cfg)
    (hlive : s.halted = false) (hbelow : s.stats.retired < cfg.maxInstructions) (h0 : s.regs 0 = 0)
    (hsize : s.dataMemory.size ≤ 2 ^ 32) (hpc : s.pc.toNat % 4 = 0)
    (hfetch : s.pc.toNat + 4 ≤ s.instructionMemory.size) (i : Isa.Instr)
    (hdecode : Isa.decode (Isa.read s.instructionMemory.image s.pc.toNat 4) = some i) (u : Isa.State)
    (hexec : i.exec s.dataMemory.size s.isa = some u) :
    ∃ b t, CpuModel.step s = .ok b t ∧ t.isa = u ∧ t.dataMemory.size = s.dataMemory.size := by
  obtain ⟨insn, hinsn⟩ := Memory.read32_isOk hfetch
  have hword : insn.toNat = Isa.read s.instructionMemory.image s.pc.toNat 4 := read32_toNat (by omega) hinsn
  rw [← hword] at hdecode
  -- the effect exists, and it is the instruction
  have heffect := effect_isa s.dataMemory s.pc insn h0 hsize
  unfold Isa.Instr.exec at hexec
  split_ifs at hexec with hrange
  rw [Bool.and_eq_true] at hrange
  rw [hdecode, Option.bind_some, show isaState s.dataMemory s.regs s.pc = s.isa from rfl, if_pos hrange.1] at heffect
  cases he : effect s.dataMemory s.regs s.pc insn with
  | error x =>
    rw [he] at heffect
    cases heffect
  | ok e =>
    rw [he] at heffect
    obtain ⟨st, c, hcharge⟩ := Caches.charge_returns_disabled hi e.kind s.pc e.nextPc s.look s.caches
    have hrunning : CpuModel.Running s := ⟨hlive, hbelow, aligned_iff.2 hpc⟩
    have hstep : CpuModel.step s = .ok (!(s.retired insn e st c).halted) (s.retired insn e st c) :=
      CpuModel.step_ok.2 (Or.inr ⟨⟨hrunning, insn, e, st, c, hinsn, he, hcharge, rfl, rfl⟩⟩)
    exact ⟨_, _, hstep, (Option.some.inj heffect).trans (Option.some.inj hexec), (effect_mem he).1⟩

/-- the store `sw x5, 0(x4)` of 99 to address 16 -/
theorem step_computes_isa_cacheTest :
    let s : CpuModel noCaches :=
      { boot noCaches noCaches_accepted (wordImage cacheTest) 0 20 with
        regs := Function.update (Function.update (fun _ => 0) 4 16) 5 99 }
    ∃ b t, CpuModel.step s = .ok b t ∧ t.isa = (Isa.Instr.store .word 4 5 0).run s.isa ∧
      t.dataMemory.size = s.dataMemory.size := by
  intro s
  have hexec : (Isa.Instr.store .word 4 5 0).exec s.dataMemory.size s.isa =
      some ((Isa.Instr.store .word 4 5 0).run s.isa) := if_pos (by decide +kernel)
  exact step_computes_isa noCaches rfl s rfl (by decide) rfl (by decide +kernel) (by decide)
    (by decide +kernel) (Isa.Instr.store .word 4 5 0) (by decide +kernel) _ hexec

end Rv32im
