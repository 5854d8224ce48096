/-
How a step throws, and what it leaves behind.

- `Thrown`, `step_throw`: a step throws at one of five places: the retirement limit, the alignment check, the fetch,
  the opcode switch, and the look-ahead behind a store.
- `called_inv`: what every instruction and every throw keep holds in every state that calls reach.
- `Thrown.frame`: the registers, the pc, the halted flag and the trace are kept by all of them.
- `effect_error`: the switch throws an illegal instruction or an access outside data memory, and nothing else.
-/
import Rv32im.Timing.Charge

namespace Rv32im

namespace CpuModel

variable {cfg : CpuConfig}

/-! ## The five places -/

/-- the ways a live model throws `x` and is left as `t` -/
inductive Thrown (s : CpuModel cfg) : Exn → CpuModel cfg → Prop where
  | limit (h : cfg.maxInstructions ≤ s.stats.retired) : Thrown s .maxInstructions s
  | misaligned (h : s.stats.retired < cfg.maxInstructions) (ha : ¬ Aligned s.pc) : Thrown s .misalignedFetch s
  | fetch {x : Exn} (h : Running s) (hf : s.instructionMemory.read32 s.pc = .error x) : Thrown s x s
  | switch {x : Exn} {insn st : BitVec 32} {c : Caches cfg} (h : Running s)
      (hf : s.instructionMemory.read32 s.pc = .ok insn)
      (hd : Caches.front (FrontEnd.ensureThrough s.pc) s.caches = .ok st c)
      (he : effect s.dataMemory s.regs s.pc insn = .error x) :
      Thrown s x { s.putCaches c with stats := earlyCount insn s.stats }
  | lookahead {x : Exn} {insn : BitVec 32} {e : Effect} {c : Caches cfg} (h : Running s)
      (hf : s.instructionMemory.read32 s.pc = .ok insn) (he : effect s.dataMemory s.regs s.pc insn = .ok e)
      (hc : Caches.charge e.kind s.pc e.nextPc s.look s.caches = .throw x c) :
      Thrown s x (({ s with dataMemory := e.mem } : CpuModel cfg).putCaches c)

/-- the redirects behind an executed instruction never throw -/
theorem noThrow_control (e : Effect) {pc : BitVec 32} (h : Aligned pc) (st : BitVec 32) :
    (Caches.control e.kind pc e.nextPc st : Caches.M cfg (BitVec 32)).NoThrow := by
  intro c x d hthrow
  rw [Caches.control_eq] at hthrow
  have hno := Caches.noThrow_controlCall cfg.icache e.kind h e.nextPc c.frontEnd
  cases hcall : Caches.controlCall cfg.icache e.kind pc e.nextPc c.frontEnd with
  | ok a f => rw [hcall] at hthrow; cases hthrow
  | throw y f => exact hno y f hcall
  | diverge => rw [hcall] at hthrow; cases hthrow

/-- nor does the demand fetch -/
theorem noThrow_demand {pc : BitVec 32} (h : Aligned pc) :
    (Caches.front (FrontEnd.ensureThrough pc) : Caches.M cfg (BitVec 32)).NoThrow :=
  (FrontEnd.noThrow_ensureThrough h).zoom

/-- behind the demand fetch, the switch throws or the data-memory part does -/
theorem afterFetch_throw {s t : CpuModel cfg} (h : Aligned s.pc) {insn st : BitVec 32} {x : Exn} :
    afterFetch s.pc insn st s = .throw x t ↔
      (effect s.dataMemory s.regs s.pc insn = .error x ∧ t = { s with stats := earlyCount insn s.stats }) ∨
      ∃ e c, effect s.dataMemory s.regs s.pc insn = .ok e ∧
        Caches.memory e.kind s.pc s.look st s.caches = .throw x c ∧
        t = ({ s with dataMemory := e.mem } : CpuModel cfg).putCaches c := by
  rw [afterFetch, Exec.bind_apply, execute_eq, switched]
  cases he : effect s.dataMemory s.regs s.pc insn with
  | error y => simp [eq_comm]
  | ok e =>
    simp only [reduceCtorEq, false_and, false_or, Except.ok.injEq, exists_and_left, exists_eq_left']
    cases hm : Caches.memory e.kind s.pc s.look st s.caches with
    | throw y c => simp [eq_comm]
    | diverge => simp
    | ok st' c =>
      simp only [Exec.andThen_ok, Exec.bind_apply, Exec.modify_apply, redirects_eq, onCaches, Exec.zoom]
      rw [Effect.locals_nextPc, executed_caches]
      cases hctl : Caches.control e.kind s.pc e.nextPc st' c with
      | ok a d => simp [retire]
      | throw y d => exact absurd hctl (noThrow_control e h st' c y d)
      | diverge => simp

/-- **A live model throws** at exactly one of five places. -/
theorem step_throw {s t : CpuModel cfg} (hlive : s.halted = false) {x : Exn} :
    step s = .throw x t ↔ Thrown s x t := by
  have hh : ¬ s.halted = true := by simp [hlive]
  simp only [step, Exec.bind_apply, Exec.get_apply, Exec.andThen_ok]
  rw [if_neg hh]
  simp only [Exec.bind_throw, Exec.throwIf_throw, Exec.throwIf_ok, Exec.lift_throw, Exec.lift_ok, front_eq]
  refine ⟨?_, ?_⟩
  · rintro (⟨hmax, rfl, rfl⟩ | ⟨_, _, ⟨hmax, rfl⟩, ⟨hal, rfl, rfl⟩ | ⟨_, _, ⟨hal, rfl⟩, ⟨hf, rfl⟩ |
      ⟨insn, _, ⟨hf, rfl⟩, hdem | ⟨st, u, hdem, hrest⟩⟩⟩⟩)
    · exact .limit hmax
    · exact .misaligned (not_le.1 hmax) fun ha => hal (aligned_iff.2 ha)
    all_goals have hrun : Running s := ⟨hlive, not_le.1 hmax, not_not.1 hal⟩
    · exact .fetch hrun hf
    · obtain ⟨c, hc, -⟩ := Exec.zoom_throw.1 hdem
      exact absurd hc (noThrow_demand (aligned_iff.1 hrun.aligned) s.caches x c)
    · obtain ⟨c, hc, rfl⟩ := Exec.zoom_ok.1 hdem
      rcases (afterFetch_throw (s := s.putCaches c) (aligned_iff.1 hrun.aligned)).1 hrest with
        ⟨he, rfl⟩ | ⟨e, d, he, hm, rfl⟩
      · exact .switch hrun hf hc he
      · refine .lookahead hrun hf he (c := d) ?_
        exact Exec.bind_throw.2 (Or.inr ⟨st, c, hc, Exec.bind_throw.2 (Or.inl hm)⟩)
  · have hpass : ∀ h : Running s, ¬ s.stats.retired ≥ cfg.maxInstructions ∧ ¬ s.pc &&& 3 ≠ 0 := by
      intro h
      exact ⟨not_le.2 h.below, not_not.2 h.aligned⟩
    intro h
    cases h with
    | limit hmax => exact Or.inl ⟨hmax, rfl, rfl⟩
    | misaligned hmax ha =>
      exact Or.inr ⟨(), s, ⟨not_le.2 hmax, rfl⟩, Or.inl ⟨fun h => ha (aligned_iff.1 h), rfl, rfl⟩⟩
    | fetch hrun hf =>
      exact Or.inr ⟨(), s, ⟨(hpass hrun).1, rfl⟩, Or.inr ⟨(), s, ⟨(hpass hrun).2, rfl⟩, Or.inl ⟨hf, rfl⟩⟩⟩
    | switch hrun hf hd he =>
      refine Or.inr ⟨(), s, ⟨(hpass hrun).1, rfl⟩, Or.inr ⟨(), s, ⟨(hpass hrun).2, rfl⟩, Or.inr
        ⟨_, s, ⟨hf, rfl⟩, Or.inr ⟨_, _, Exec.zoom_ok.2 ⟨_, hd, rfl⟩, ?_⟩⟩⟩⟩
      exact (afterFetch_throw (s := s.putCaches _) (aligned_iff.1 hrun.aligned)).2 (Or.inl ⟨he, rfl⟩)
    | lookahead hrun hf he hc =>
      -- the demand fetch returned, and no redirect throws
      rcases Exec.bind_throw.1 hc with hd | ⟨st, d, hd, hrest⟩
      · exact absurd hd (noThrow_demand (aligned_iff.1 hrun.aligned) s.caches _ _)
      · rcases Exec.bind_throw.1 hrest with hm | ⟨st', d', -, hctl⟩
        · refine Or.inr ⟨(), s, ⟨(hpass hrun).1, rfl⟩, Or.inr ⟨(), s, ⟨(hpass hrun).2, rfl⟩, Or.inr
            ⟨_, s, ⟨hf, rfl⟩, Or.inr ⟨_, _, Exec.zoom_ok.2 ⟨_, hd, rfl⟩, ?_⟩⟩⟩⟩
          exact (afterFetch_throw (s := s.putCaches _) (aligned_iff.1 hrun.aligned)).2 (Or.inr ⟨_, _, he, hm, rfl⟩)
        · exact absurd hctl (noThrow_control _ (aligned_iff.1 hrun.aligned) _ _ _ _)

/-- a halted model does not throw -/
theorem live_of_throw {s t : CpuModel cfg} {x : Exn} (h : step s = .throw x t) : s.halted = false := by
  cases hh : s.halted with
  | false => rfl
  | true =>
    rw [step_of_halted hh] at h
    cases h

/-- what every instruction and every throw keep holds after any calls -/
theorem called_inv {P : CpuModel cfg → Prop} (hreturn : ∀ s t b, Stepped s b t → P s → P t)
    (hthrow : ∀ s t x, Thrown s x t → P s → P t) {s t : CpuModel cfg} (hc : Exec.Called step s t) (h : P s) :
    P t := by
  induction hc with
  | start => exact h
  | ok _ hstep ih => exact step_inv hreturn ih hstep
  | throw _ hstep ih => exact hthrow _ _ _ ((step_throw (live_of_throw hstep)).1 hstep) ih

/-- what every throw keeps -/
theorem Thrown.frame {s t : CpuModel cfg} {x : Exn} (h : Thrown s x t) :
    t.regs = s.regs ∧ t.pc = s.pc ∧ t.halted = s.halted ∧ t.trace = s.trace ∧
      t.instructionMemory = s.instructionMemory := by
  cases h <;> exact ⟨rfl, rfl, rfl, rfl, rfl⟩

end CpuModel

/-! ## What the switch throws -/

theorem map_error {α : Type} {x : Except Exn α} {f : α → Effect} {y : Exn} (h : x.map f = .error y) : x = .error y := by
  cases x with
  | error z => exact congrArg Except.error (Except.error.inj h)
  | ok v => cases h

/-- an exception of the switch: an encoding it does not support, or an access that ends behind `size` -/
def Exn.OfSwitch (pc insn : BitVec 32) (size : ℕ) (x : Exn) : Prop :=
  (∃ reason, x = .illegal pc insn reason) ∨ ∃ addr width, x = .outOfRange addr width size

theorem checkRange_error {α : Type} {m : Memory} {addr : BitVec 32} {width : ℕ} {v : α} {x : Exn}
    (pc insn : BitVec 32) (h : (do m.checkRange addr width; .ok v) = .error x) : x.OfSwitch pc insn m.size := by
  rw [Memory.checkRange_bind] at h
  split_ifs at h
  cases h
  exact Or.inr ⟨addr, width, rfl⟩

theorem loadValue_error {m : Memory} {pc insn addr : BitVec 32} {x : Exn} (h : loadValue m pc insn addr = .error x) :
    x.OfSwitch pc insn m.size := by
  have hbind : ∀ {n : ℕ} {y : Except Exn (BitVec n)} {f : BitVec n → BitVec 32},
      (do return f (← y) : Except Exn (BitVec 32)) = .error x → y = .error x := by
    intro n y f hy
    cases y with
    | error z => exact congrArg Except.error (Except.error.inj hy)
    | ok v => cases hy
  unfold loadValue at h
  split at h
  · exact checkRange_error pc insn (hbind h)
  · exact checkRange_error pc insn (hbind h)
  · exact checkRange_error pc insn h
  · exact checkRange_error pc insn (hbind h)
  · exact checkRange_error pc insn (hbind h)
  · cases h
    exact Or.inl ⟨_, rfl⟩

theorem storeValue_error {m : Memory} {pc insn addr b : BitVec 32} {x : Exn}
    (h : storeValue m pc insn addr b = .error x) : x.OfSwitch pc insn m.size := by
  unfold storeValue at h
  split at h
  · exact checkRange_error pc insn h
  · exact checkRange_error pc insn h
  · exact checkRange_error pc insn h
  · cases h
    exact Or.inl ⟨_, rfl⟩

/-- the register results throw illegal encodings only -/
theorem value_error {pc insn a b : BitVec 32} {x : Exn} (h : opImmValue pc insn a = .error x ∨
    mulDivValue pc insn a b = .error x ∨ opValue pc insn a b = .error x) : ∃ reason, x = .illegal pc insn reason := by
  have hillegal : ∀ {reason : String}, (illegal pc insn reason : Except Exn (BitVec 32)) = .error x →
      ∃ reason, x = .illegal pc insn reason := by
    intro reason h
    exact ⟨reason, (Except.error.inj h).symm⟩
  rcases h with h | h | h
  · unfold opImmValue at h
    split at h <;> (try split_ifs at h) <;> first | exact hillegal h | cases h
  · unfold mulDivValue at h
    split at h <;> (try split_ifs at h) <;> first | exact hillegal h | cases h
  · unfold opValue at h
    split at h <;> (try split_ifs at h) <;> exact hillegal h

/-- **The switch throws** illegal encodings and accesses outside data memory only. -/
theorem effect_error {m : Memory} {r : Regs} {pc insn : BitVec 32} {x : Exn} (h : effect m r pc insn = .error x) :
    x.OfSwitch pc insn m.size := by
  have hillegal : ∀ {reason : String}, (illegal pc insn reason : Except Exn Effect) = .error x →
      x.OfSwitch pc insn m.size := by
    intro reason h
    exact Or.inl ⟨reason, (Except.error.inj h).symm⟩
  unfold effect at h
  split at h
  · cases h
  · cases h
  · cases h
  · split_ifs at h
    exact hillegal h
  · simp only at h
    split at h
    · exact hillegal h
    · cases h
  · exact loadValue_error (map_error h)
  · exact storeValue_error (map_error h)
  · exact Or.inl (value_error (b := 0) (Or.inl (map_error h)))
  · split_ifs at h
    · exact Or.inl (value_error (Or.inr (Or.inl (map_error h))))
    · exact Or.inl (value_error (Or.inr (Or.inr (map_error h))))
  · cases h
  · split_ifs at h
    exact hillegal h
  · exact hillegal h

end Rv32im
