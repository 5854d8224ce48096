/-
The load-use interlock reads the operands that the interpreter reads.

- `effect_unread`: an instruction whose decoding does not consume a register has the same effect for every value of the
  register, up to the bytes of a store of the register.
- `Stepped.unread`: so has the step, and it returns for every value. Only the look-ahead sees the register.
- `Stepped.remembered`: the register that the timing model remembers of a load is the one that the load writes.
- `load_use_sound`: without a hazard behind a load, the instruction does not depend on the loaded value.
-/
import Rv32im.Timing.Invariant

namespace Rv32im

/-! ## Consumed registers -/

/-- the instruction needs the register in its EX stage -/
def DecodedTimingInfo.consumes (info : DecodedTimingInfo) (r : Fin 32) : Bool :=
  (info.usesRs1 && info.rs1 = r) || (info.usesRs2 && info.rs2 = r)

theorem PipelineTimingModel.loadUseHazard_eq {config : PipelineTimingConfig} (p : PipelineTimingModel config)
    (info : DecodedTimingInfo) :
    p.loadUseHazard info = (p.previousWasLoad && p.previousLoadRd ≠ 0 && info.consumes p.previousLoadRd) := rfl

/-! ## Stores write the bytes of their range only -/

theorem Memory.setByte_other (m : Memory) {addr : BitVec 32} (value : BitVec 8) {i : ℕ} (h : i ≠ addr.toNat) :
    (m.setByte addr value).bytes[i]? = m.bytes[i]? :=
  Array.getElem?_setIfInBounds_ne (Ne.symm h)

/-- the byte of index i is one of the bytes that the store of `insn` to `addr` writes -/
def Stores (insn addr : BitVec 32) (i : ℕ) : Prop := ∃ k < 2 ^ funct3 insn, i = (addr + BitVec.ofNat 32 k).toNat

theorem storeValue_other {m m' : Memory} {pc insn addr b : BitVec 32} (h : storeValue m pc insn addr b = .ok m') {i : ℕ}
    (hi : ¬ Stores insn addr i) : m'.bytes[i]? = m.bytes[i]? := by
  have hne : ∀ k < 2 ^ funct3 insn, i ≠ (addr + BitVec.ofNat 32 k).toNat := by
    intro k hk he
    exact hi ⟨k, hk, he⟩
  have h0 : i ≠ addr.toNat := by
    have h := hne 0 (by positivity)
    rwa [BitVec.add_zero] at h
  unfold storeValue at h
  split at h <;> rename_i hf
  · cases Memory.checkRange_bind_ok h
    exact Memory.setByte_other _ _ h0
  · rw [hf] at hne
    have h1 : i ≠ (addr + 1).toNat := hne 1 (by decide)
    cases Memory.checkRange_bind_ok h
    rw [Memory.setByte_other _ _ h1, Memory.setByte_other _ _ h0]
  · rw [hf] at hne
    have h1 : i ≠ (addr + 1).toNat := hne 1 (by decide)
    have h2 : i ≠ (addr + 2).toNat := hne 2 (by decide)
    have h3 : i ≠ (addr + 3).toNat := hne 3 (by decide)
    cases Memory.checkRange_bind_ok h
    rw [Memory.setByte_other _ _ h3, Memory.setByte_other _ _ h2, Memory.setByte_other _ _ h1,
      Memory.setByte_other _ _ h0]
  · cases h

/-- whether a store returns does not depend on the value -/
theorem storeValue_returns {m m' : Memory} {pc insn addr b : BitVec 32} (h : storeValue m pc insn addr b = .ok m')
    (b' : BitVec 32) : ∃ m'', storeValue m pc insn addr b' = .ok m'' := by
  unfold storeValue at h ⊢
  split at h
  · simp only [Memory.write8, Memory.checkRange_bind] at h ⊢
    split_ifs at h ⊢
    exact ⟨_, rfl⟩
  · simp only [Memory.write16, Memory.checkRange_bind] at h ⊢
    split_ifs at h ⊢
    exact ⟨_, rfl⟩
  · simp only [Memory.write32, Memory.checkRange_bind] at h ⊢
    split_ifs at h ⊢
    exact ⟨_, rfl⟩
  · cases h

/-! ## The effect of an instruction -/

/-- the memories are equal but for the bytes that a store of `r` writes -/
structure StoredOnly (insn addr : BitVec 32) (r : Fin 32) (m m' : Memory) : Prop where
  size : m'.size = m.size
  stored : ∀ i, m'.bytes[i]? ≠ m.bytes[i]? → opcode insn = 0x23 ∧ rs2 insn = r ∧ Stores insn addr i

theorem storedOnly_refl (insn addr : BitVec 32) (r : Fin 32) (m : Memory) : StoredOnly insn addr r m m :=
  ⟨rfl, fun _ h => absurd rfl h⟩

section Effect

variable {m : Memory} {r : Regs} {pc insn : BitVec 32} {q : Fin 32}

/-- the operands of an instruction whose decoding does not consume `q` -/
theorem unread_operands (hq : (PipelineTimingModel.decode insn).consumes q = false) (v : BitVec 32) :
    ((PipelineTimingModel.decode insn).usesRs1 = true → Function.update r q v (rs1 insn) = r (rs1 insn)) ∧
      ((PipelineTimingModel.decode insn).usesRs2 = true → Function.update r q v (rs2 insn) = r (rs2 insn)) := by
  have hfields : (PipelineTimingModel.decode insn).rs1 = rs1 insn ∧
      (PipelineTimingModel.decode insn).rs2 = rs2 insn := by
    unfold PipelineTimingModel.decode
    split <;> exact ⟨rfl, rfl⟩
  unfold DecodedTimingInfo.consumes at hq
  rw [hfields.1, hfields.2] at hq
  refine ⟨?_, ?_⟩
  · intro huse
    have hne : rs1 insn ≠ q := by
      rintro rfl
      simp [huse] at hq
    exact Function.update_of_ne hne v r
  · intro huse
    have hne : rs2 insn ≠ q := by
      rintro rfl
      simp [huse] at hq
    exact Function.update_of_ne hne v r

/-- **A register that is not consumed is not read**, by any instruction but a store of it. -/
theorem effect_unread (hq : (PipelineTimingModel.decode insn).consumes q = false) (v : BitVec 32)
    (hstore : opcode insn ≠ 0x23) : effect m (Function.update r q v) pc insn = effect m r pc insn := by
  obtain ⟨h1, h2⟩ := unread_operands (r := r) hq v
  unfold effect
  split <;> rename_i hop
  · rfl
  · rfl
  · rfl
  · rw [h1 (by simp [PipelineTimingModel.decode, hop])]
  · rw [h1 (by simp [PipelineTimingModel.decode, hop]), h2 (by simp [PipelineTimingModel.decode, hop])]
  · rw [h1 (by simp [PipelineTimingModel.decode, hop])]
  · exact absurd hop hstore
  · rw [h1 (by simp [PipelineTimingModel.decode, hop])]
  · rw [h1 (by simp [PipelineTimingModel.decode, hop]), h2 (by simp [PipelineTimingModel.decode, hop])]
  · rfl
  · rfl
  · rfl

/-- a store of any value has the same effect but for the bytes -/
theorem effect_unread_store (hq : (PipelineTimingModel.decode insn).consumes q = false) (v : BitVec 32)
    (hstore : opcode insn = 0x23) {e : Effect} (he : effect m r pc insn = .ok e) :
    ∃ m', effect m (Function.update r q v) pc insn = .ok { e with mem := m' } ∧
      StoredOnly insn (r (rs1 insn) + immS insn) q e.mem m' := by
  obtain ⟨h1, -⟩ := unread_operands (r := r) hq v
  have haddr := h1 (by simp [PipelineTimingModel.decode, hstore])
  simp only [effect, hstore] at he ⊢
  rw [haddr]
  obtain ⟨m₁, hm₁, rfl⟩ := map_ok he
  obtain ⟨m₂, hm₂⟩ := storeValue_returns hm₁ (Function.update r q v (rs2 insn))
  refine ⟨m₂, by rw [hm₂]; rfl, (storeValue_size hm₂).trans (storeValue_size hm₁).symm, ?_⟩
  intro i hi
  refine ⟨hstore, ?_, ?_⟩
  · by_contra hne
    rw [Function.update_of_ne hne, hm₁] at hm₂
    cases hm₂
    exact hi rfl
  · by_contra hout
    apply hi
    rw [storeValue_other hm₂ hout, storeValue_other hm₁ hout]

theorem effect_unread_ok (hq : (PipelineTimingModel.decode insn).consumes q = false) (v : BitVec 32) {e : Effect}
    (he : effect m r pc insn = .ok e) :
    ∃ m', effect m (Function.update r q v) pc insn = .ok { e with mem := m' } ∧
      StoredOnly insn (r (rs1 insn) + immS insn) q e.mem m' := by
  by_cases hstore : opcode insn = 0x23
  · exact effect_unread_store hq v hstore he
  · exact ⟨e.mem, (effect_unread hq v hstore).trans he, storedOnly_refl _ _ _ _⟩

end Effect

/-! ## The step -/

namespace CpuModel

variable {cfg : CpuConfig}

/-- the state after `write_reg` -/
def withReg (s : CpuModel cfg) (r : Fin 32) (v : BitVec 32) : CpuModel cfg :=
  { s with regs := if r ≠ 0 then Function.update s.regs r v else s.regs }

/-- the states after `insn` on a state `s` and on one that differs in register `r` -/
structure SameResult (insn : BitVec 32) (r : Fin 32) (s t t' : CpuModel cfg) : Prop where
  pc : t'.pc = t.pc
  halted : t'.halted = t.halted
  -- the branch outcome, as the counters and the timing model have it
  classes : t'.stats.classes = t.stats.classes
  timing : t'.timing.erase = t.timing.erase
  -- the address, the destination register and the written value
  rows : t'.trace.map RetireEvent.untimed = t.trace.map RetireEvent.untimed
  regs : ∀ x, x ≠ r → t'.regs x = t.regs x
  memory : StoredOnly insn (s.regs (rs1 insn) + immS insn) r t.dataMemory t'.dataMemory

theorem sameResult_refl (insn : BitVec 32) (r : Fin 32) (s t : CpuModel cfg) : SameResult insn r s t t :=
  ⟨rfl, rfl, rfl, rfl, rfl, fun _ _ => rfl, storedOnly_refl _ _ _ _⟩

variable {s t : CpuModel cfg} {b : Bool}

/-- **A step does not depend on a register that its instruction does not consume.** -/
theorem Stepped.unread (w : Stepped s b t) {r : Fin 32} (hr : r ≠ 0)
    (hq : (PipelineTimingModel.decode w.insn).consumes r = false) (v : BitVec 32) :
    ∃ t', step (s.withReg r v) = .ok b t' ∧ SameResult w.insn r s t t' := by
  have hregs : (s.withReg r v).regs = Function.update s.regs r v := if_pos hr
  obtain ⟨m', he', hmem⟩ := effect_unread_ok hq v w.effect
  obtain ⟨q⟩ := Caches.charge_ok.1 w.charge
  -- the look-ahead may find another target, but it fails at the same fetch
  have hlook : ∀ x, (s.withReg r v).look = .error x → s.look = .error x := by
    intro x hx
    have hfetch := (redirectTarget_error (s := s.withReg r v)).1 hx
    exact redirectTarget_error.2 hfetch
  obtain ⟨st', c', hcharge⟩ := q.relook hlook
  have hhalted : t.halted = ((s.withReg r v).retired w.insn { w.e with mem := m' } st' c').halted :=
    (congrArg CpuModel.halted w.after).trans rfl
  have w' : Stepped (s.withReg r v) b ((s.withReg r v).retired w.insn { w.e with mem := m' } st' c') :=
    ⟨⟨w.running.live, w.running.below, w.running.aligned⟩, w.insn, { w.e with mem := m' }, st', c', w.fetch,
      by rw [hregs]; exact he', hcharge, w.more.trans (congrArg not hhalted), rfl⟩
  refine ⟨_, step_ok.2 (Or.inr ⟨w'⟩), ?_⟩
  have harch := w.arch
  have harch' := arch_retired (s.withReg r v) w.insn { w.e with mem := m' } st' c'
  constructor
  · exact (congrArg Arch.pc harch').trans (congrArg Arch.pc harch).symm
  · exact (congrArg Arch.halted harch').trans (congrArg Arch.halted harch).symm
  · exact (congrArg Arch.classes harch').trans (congrArg Arch.classes harch).symm
  · exact (congrArg Arch.timing harch').trans (congrArg Arch.timing harch).symm
  · exact (congrArg Arch.trace harch').trans (congrArg Arch.trace harch).symm
  · intro x hx
    have hx' := congrFun (congrArg Arch.regs harch') x
    have hx'' := congrFun (congrArg Arch.regs harch) x
    refine hx'.trans (Eq.trans ?_ hx''.symm)
    show Function.update (w.e.regs (s.withReg r v).regs) 0 0 x = Function.update (w.e.regs s.regs) 0 0 x
    rw [hregs]
    unfold Effect.regs
    cases w.e.wr with
    | none => simp [Function.update_apply, hx]
    | some p => by_cases hp : p.1 = 0 <;> simp [Function.update_apply, hx, hp]
  · have hm : t.dataMemory = w.e.mem := congrArg Arch.dataMemory harch
    rw [hm]
    exact hmem

/-- what the timing model and the registers keep of a load -/
structure Remembered (s t : CpuModel cfg) : Prop where
  load : t.timing.previousWasLoad = true
  row : ∃ row, t.trace = s.trace ++ [row] ∧ row.memRead = true ∧ row.rd = t.timing.previousLoadRd.val ∧
    (t.timing.previousLoadRd ≠ 0 → t.regs t.timing.previousLoadRd = row.wdata)
  others : ∀ x, x ≠ t.timing.previousLoadRd → x ≠ 0 → t.regs x = s.regs x

/-- **The remembered register is the one that the load writes.** -/
theorem Stepped.remembered (w : Stepped s b t) (h : opcode w.insn = 0x03) : Remembered s t := by
  have hload : (PipelineTimingModel.decode w.insn).isLoad = true ∧
      (PipelineTimingModel.decode w.insn).rd = rd w.insn := by
    simp [PipelineTimingModel.decode, h]
  obtain ⟨addr, v, he⟩ : ∃ addr v, w.e = ⟨.load addr, s.pc + 4, some (rd w.insn, v), s.dataMemory⟩ := by
    have heffect := w.effect
    simp only [Rv32im.effect, h] at heffect
    obtain ⟨v, -, hv⟩ := map_ok heffect
    exact ⟨_, v, hv.symm⟩
  have hwas : t.timing.previousWasLoad = true := by
    rw [w.after]
    exact hload.1
  have hrd : t.timing.previousLoadRd = rd w.insn := by
    refine (congrArg (fun u => u.timing.previousLoadRd) w.after).trans ?_
    simp [retired, PipelineTimingModel.retire, hload]
  have hregs : t.regs =
      Function.update (if rd w.insn ≠ 0 then Function.update s.regs (rd w.insn) v else s.regs) 0 0 := by
    refine (congrArg CpuModel.regs w.after).trans ?_
    simp only [retired, he, Effect.regs]
  refine ⟨hwas, ⟨_, (congrArg CpuModel.trace w.after).trans rfl, ?_, ?_, ?_⟩, ?_⟩
  · simp [he, Effect.event]
  · simp [he, Effect.event, hrd]
  · intro hne
    rw [hrd] at hne ⊢
    rw [hregs, if_pos hne, Function.update_of_ne hne, Function.update_self]
    simp [he, Effect.event]
  · intro x hx hx0
    rw [hrd] at hx
    rw [hregs, Function.update_of_ne hx0]
    split_ifs
    · rw [Function.update_of_ne hx]
    · rfl

theorem Stepped.forgotten (w : Stepped s b t) (h : opcode w.insn ≠ 0x03) : t.timing.previousWasLoad = false := by
  have hload : (PipelineTimingModel.decode w.insn).isLoad = false := by
    unfold PipelineTimingModel.decode
    split <;> first | rfl | contradiction
  rw [w.after]
  exact hload

end CpuModel

/-- **The load-use interlock is sound.** An instruction that executes has the same result for every value of a register
that its decoding does not consume. The register that the timing model remembers of a load is the one the load writes.
So without a hazard directly behind a load, the result does not depend on the loaded value. -/
theorem load_use_sound (cfg : CpuConfig) (s t : CpuModel cfg) (b : Bool) (hlive : s.halted = false)
    (hs : CpuModel.step s = .ok b t) : ∃ insn, s.instructionMemory.read32 s.pc = .ok insn ∧
      (∀ r v, r ≠ 0 → (PipelineTimingModel.decode insn).consumes r = false →
        ∃ t', CpuModel.step (s.withReg r v) = .ok b t' ∧ CpuModel.SameResult insn r s t t') ∧
      (opcode insn = 0x03 → CpuModel.Remembered s t) ∧
      (opcode insn ≠ 0x03 → t.timing.previousWasLoad = false) ∧
      (∀ stalls taken v, s.timing.previousWasLoad = true →
        ((s.timing.addExternalStalls stalls).retire insn taken).1.loadUseHazard = false →
        ∃ t', CpuModel.step (s.withReg s.timing.previousLoadRd v) = .ok b t' ∧
          CpuModel.SameResult insn s.timing.previousLoadRd s t t') := by
  obtain ⟨w⟩ := CpuModel.step_of_live hlive hs
  refine ⟨w.insn, w.fetch, fun r v hr hq => w.unread hr hq v, w.remembered, w.forgotten, ?_⟩
  intro stalls taken v hload hno
  by_cases hr : s.timing.previousLoadRd = 0
  · -- a load into x0 leaves nothing behind
    have hsame : s.withReg s.timing.previousLoadRd v = s := by
      unfold CpuModel.withReg
      rw [if_neg (not_not.2 hr)]
    rw [hsame]
    exact ⟨t, hs, CpuModel.sameResult_refl _ _ _ _⟩
  · have hhazard : s.timing.loadUseHazard (PipelineTimingModel.decode w.insn) = false := hno
    rw [PipelineTimingModel.loadUseHazard_eq, hload, decide_eq_true hr, Bool.true_and, Bool.true_and] at hhazard
    exact w.unread hr hhazard v

/-- behind `lw x3, 0(x0)`, the result of `addi x4, x0, 16` does not depend on x3 -/
theorem load_use_sound_cacheTest : ∃ s t t',
    Exec.iter CpuModel.step 3 (boot splitCaches splitCaches_accepted (wordImage cacheTest) 0 0) = some s ∧
      CpuModel.step s = .ok true t ∧ CpuModel.step (s.withReg 3 7) = .ok true t' ∧ t'.regs 4 = t.regs 4 := by
  obtain ⟨s, hs, hcheck⟩ := (Option.any_eq_true _ _).1 (by decide +kernel :
    (Exec.iter CpuModel.step 3 (boot splitCaches splitCaches_accepted (wordImage cacheTest) 0 0)).any
      (fun s => !s.halted && s.timing.previousWasLoad && s.timing.previousLoadRd = 3 &&
        decide (s.instructionMemory.read32 s.pc = .ok 0x01000213) &&
        (CpuModel.step s).returned.any Prod.fst) = true)
  simp only [Bool.and_eq_true, Bool.not_eq_true', decide_eq_true_eq] at hcheck
  obtain ⟨⟨⟨⟨hlive, hload⟩, hrd⟩, hfetch⟩, hmore⟩ := hcheck
  obtain ⟨⟨b, t⟩, hreturned, rfl⟩ := (Option.any_eq_true _ _).1 hmore
  have hstep := Outcome.returned_eq_some.1 hreturned
  obtain ⟨insn, hinsn, -, -, -, hafter⟩ := load_use_sound splitCaches s t true hlive hstep
  rw [hfetch] at hinsn
  cases hinsn
  have hno : ((s.timing.addExternalStalls 0).retire 0x01000213 false).1.loadUseHazard = false := by
    show s.timing.loadUseHazard (PipelineTimingModel.decode 0x01000213) = false
    rw [PipelineTimingModel.loadUseHazard_eq, hrd]
    have hfree : (PipelineTimingModel.decode 0x01000213).consumes 3 = false := by decide
    rw [hfree, Bool.and_false]
  obtain ⟨t', ht', hsame⟩ := hafter 0 false 7 hload hno
  rw [hrd] at ht' hsame
  exact ⟨s, t, t', hs, hstep, ht', hsame.regs 4 (by decide)⟩

end Rv32im
