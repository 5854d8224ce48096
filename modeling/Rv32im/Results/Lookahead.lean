/-
The look-ahead of the overlap rule agrees with the execution behind it.

`sequential_next_redirect_target` decodes the word behind a store, and evaluates its branch on the registers that the
store's step sees. The store leaves the registers, instruction memory and the pc behind it alone, so the next step
decodes the same word over the same operands (`look_of_effect`).

- `Redirected`: what the next step shows of a redirect: the opcode of its row, and the counter of taken branches.
- `Stepped.redirected_iff`: it shows a redirect exactly when the effect of its instruction is one.
- `lookahead_agrees`: the statement for every store in a state that calls can reach.
-/
import Rv32im.Results.Credit

namespace Rv32im

namespace CpuModel

variable {cfg : CpuConfig} {s t u : CpuModel cfg} {b : Bool}

/-- the step from t to u retires a JAL, a JALR or a taken branch -/
def Redirected (t u : CpuModel cfg) : Prop :=
  ∃ row, u.trace = t.trace ++ [row] ∧ (opcode row.insn = 0x6f ∨ opcode row.insn = 0x67 ∨
    opcode row.insn = 0x63 ∧ u.stats.branchesTaken = t.stats.branchesTaken + 1)

/-- the row that a step appends is the row of its instruction -/
theorem Stepped.insn_of_row (w : Stepped s b t) {row : RetireEvent} (h : t.trace = s.trace ++ [row]) :
    row.insn = w.insn := by
  obtain ⟨row', htrace, -, hinsn⟩ := w.retires
  rw [htrace] at h
  cases List.append_cancel_left h
  exact hinsn

theorem Stepped.branchesTaken (w : Stepped t b u) :
    u.stats.branchesTaken = t.stats.branchesTaken + if w.e.kind = .branch true then 1 else 0 := by
  have h : u.stats.branchesTaken = (w.e.kind.count t.stats.classes).branchesTaken :=
    congrArg (fun x => x.classes.branchesTaken) w.arch
  rw [h]
  cases w.e.kind with
  | branch taken => cases taken <;> rfl
  | _ => rfl

/-- the kind of an instruction by its opcode -/
theorem effect_kind_of_opcode {m : Memory} {r : Regs} {pc insn : BitVec 32} {e : Effect}
    (h : effect m r pc insn = .ok e) :
    (opcode insn = 0x6f ∨ opcode insn = 0x67 → e.kind = .jump) ∧
      (opcode insn = 0x63 → ∃ taken, e.kind = .branch taken) ∧ (opcode insn = 0x23 → e.kind.stores = true) := by
  have hfits := effect_fits h
  refine ⟨?_, ?_, ?_⟩
  · intro hop
    refine hfits.isJump.1 ?_
    rcases hop with hop | hop <;> simp [PipelineTimingModel.decode, hop]
  · intro hop
    exact hfits.isBranch.1 (by simp [PipelineTimingModel.decode, hop])
  · intro hop
    simp only [effect, hop] at h
    obtain ⟨v, -, rfl⟩ := map_ok h
    rfl

/-- a step shows a redirect exactly when its instruction takes one -/
theorem Stepped.redirected_iff (w : Stepped t b u) : Redirected t u ↔ w.e.kind.jumps = true := by
  obtain ⟨hjump, hbranch, -⟩ := effect_kind_of_opcode w.effect
  have htaken := w.branchesTaken
  refine ⟨?_, ?_⟩
  · intro ⟨row, hrow, hop⟩
    rw [w.insn_of_row hrow] at hop
    rcases hop with hop | hop | ⟨hop, hcount⟩
    · rw [hjump (Or.inl hop)]
      rfl
    · rw [hjump (Or.inr hop)]
      rfl
    · obtain ⟨taken, hk⟩ := hbranch hop
      by_cases hb : w.e.kind = .branch true
      · rw [hb]
        rfl
      · rw [if_neg hb] at htaken
        omega
  · intro hk
    obtain ⟨row, hrow, -, hinsn⟩ := w.retires
    refine ⟨row, hrow, ?_⟩
    rw [hinsn]
    rcases (effect_opcode w.effect).2 hk with hop | hop | ⟨hop, hb⟩
    · exact Or.inl hop
    · exact Or.inr (Or.inl hop)
    · rw [if_pos hb] at htaken
      exact Or.inr (Or.inr ⟨hop, htaken⟩)

/-- **The look-ahead of a store** is the redirect of the step behind it. -/
theorem Stepped.look_eq {b' : Bool} (w : Stepped s b t) (h0 : s.regs 0 = 0) (hk : w.e.kind.stores = true)
    (w' : Stepped t b' u) : s.look = .ok (if w'.e.kind.jumps then some u.pc else none) := by
  obtain ⟨him, hregs, hpc, -⟩ := w.store_keeps h0 hk
  rw [w'.pc, ← look_of_effect w'.running.aligned w'.fetch w'.effect, look_congr him hregs, hpc]
  rfl

end CpuModel

/-- **Look-ahead agrees with execution.** Behind a store, the look-ahead finds a target exactly when the next step
retires a taken branch, a JAL or a JALR, and then it is the pc that this step leaves. In front of any other instruction
it finds none. -/
theorem lookahead_agrees (cfg : CpuConfig) (h : cfg.Accepted) (program data : ℕ → BitVec 8) (pc : BitVec 32)
    (s t u : CpuModel cfg) (b b' : Bool) (hs : Exec.Called CpuModel.step (boot cfg h program data pc) s)
    (ht : CpuModel.step s = .ok b t) (hu : CpuModel.step t = .ok b' u)
    (hstore : ∃ row, t.trace = s.trace ++ [row] ∧ opcode row.insn = 0x23) :
    (∀ target, s.sequentialNextRedirectTarget (s.pc + 4) = .ok (some target) ↔
      CpuModel.Redirected t u ∧ target = u.pc) ∧
    (s.sequentialNextRedirectTarget (s.pc + 4) = .ok none ↔ ¬ CpuModel.Redirected t u) := by
  obtain ⟨row, hrow, hop⟩ := hstore
  have hzero := (CpuModel.called_sound (CpuModel.sound_boot h program data pc) hs).zero
  have hlive : s.halted = false := by
    by_contra hh
    rw [CpuModel.step_of_halted (by simpa using hh)] at ht
    cases ht
    simp at hrow
  obtain ⟨w⟩ := CpuModel.step_of_live hlive ht
  have hk : w.e.kind.stores = true := (CpuModel.effect_kind_of_opcode w.effect).2.2 (w.insn_of_row hrow ▸ hop)
  obtain ⟨w'⟩ := CpuModel.step_of_live (w.store_keeps hzero hk).2.2.2 hu
  have hlook : s.sequentialNextRedirectTarget (s.pc + 4) = _ := w.look_eq hzero hk w'
  rw [hlook, w'.redirected_iff]
  cases w'.e.kind.jumps with
  | true => simp [eq_comm]
  | false => simp

/-- a store in front of a jump -/
theorem lookahead_agrees_storeThenJump : ∃ t u b b', CpuModel.step storeThenJumpBoot = .ok b t ∧
    CpuModel.step t = .ok b' u ∧ CpuModel.Redirected t u ∧
    storeThenJumpBoot.sequentialNextRedirectTarget 4 = .ok (some u.pc) := by
  obtain ⟨u, hu⟩ := Option.isSome_iff_exists.1 (by decide +kernel :
    (Exec.iter CpuModel.step 2 storeThenJumpBoot).isSome = true)
  obtain ⟨b, t, ht, htail⟩ := Exec.iter_succ.1 hu
  obtain ⟨b', u', hu', hsame⟩ := Exec.iter_succ.1 htail
  cases hsame
  have hlook : storeThenJumpBoot.sequentialNextRedirectTarget (storeThenJumpBoot.pc + 4) = .ok (some 0x20) := by
    decide +kernel
  have hstore : ∃ row, t.trace = storeThenJumpBoot.trace ++ [row] ∧ opcode row.insn = 0x23 := by
    have hrows : (Exec.iter CpuModel.step 1 storeThenJumpBoot).any
        (fun t => t.trace.map (fun row => opcode row.insn) = [0x23]) = true := by decide +kernel
    rw [Exec.iter_succ.2 ⟨b, t, ht, rfl⟩] at hrows
    exact List.map_eq_singleton_iff.1 (of_decide_eq_true hrows)
  have hagrees := (lookahead_agrees splitCaches splitCaches_accepted (wordImage storeThenJump) 0 0
    storeThenJumpBoot t u b b' .start ht hu' hstore).1 0x20
  obtain ⟨hredirected, htarget⟩ := hagrees.1 hlook
  exact ⟨t, u, b, b', ht, hu', hredirected, htarget ▸ hlook⟩

end Rv32im
