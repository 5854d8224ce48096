/-
A run of the model is a run of the instruction set (`Isa/Machine.lean`).

- `Stepped.instr`: one instruction of the model is one instruction of the machine, unless it jumps to a misaligned
  target. The model retires such a jump and throws at the target.
- `turns_isa`: the turns of a run that halts are the instructions of the program.
- `isa_turns`: the model follows a program to its end. The look-ahead can stop it only at a store in the last word of
  memory, and there the program has no end.
- `run_computes_isa`: a run returns exactly where the program ends within the limit, with its state, and the rows of the
  trace are the rows of its instructions.
- `run_ends`: every run ends, by halting or by throwing, and the limit is thrown exactly when it is reached.
-/
import Rv32im.Isa.Row
import Rv32im.Results.Exceptions
import Rv32im.Results.FetchLoop
import Rv32im.Results.TraceRows
import Rv32im.Step.Run
import Rv32im.Timing.Invariant

namespace Rv32im

/-- an instruction that runs to an aligned pc jumps to an aligned target -/
theorem Isa.Instr.targetAligned_of_pc {i : Isa.Instr} {s : Isa.State} (h : (i.run s).pc % 4 = 0) :
    i.targetAligned s = true := by
  unfold targetAligned
  cases ht : i.target s with
  | none => rfl
  | some a =>
    have hpc : (i.run s).pc = a := by
      show (i.target s).getD (Isa.wrap (s.pc + 4)) = a
      rw [ht]
      rfl
    exact decide_eq_true (hpc ▸ h)

theorem Isa.Instr.targetAligned_of_stops {i : Isa.Instr} (h : i.stops = true) (s : Isa.State) :
    i.targetAligned s = true := by
  cases i <;> first | rfl | cases h

theorem Isa.Instr.stops_of_stores {i : Isa.Instr} (h : i.stores = true) : i.stops = false := by
  cases i <;> first | rfl | cases h

namespace CpuModel

variable {cfg : CpuConfig}

/-- the program that a model holds -/
def machine (s : CpuModel cfg) : Isa.Machine := ⟨s.instructionMemory.image, cfg.memorySize⟩

section Instr

variable {s t : CpuModel cfg} {b : Bool} {i : Isa.Instr}

/-- the instruction at an aligned pc inside memory -/
theorem machine_fetch (hs : s.Sound) (hrun : Running s) {insn : BitVec 32}
    (hf : s.instructionMemory.read32 s.pc = .ok insn) : s.machine.fetch s.isa = Isa.decode s.word := by
  have hin := Memory.read32_ok_bound hf
  rw [hs.code] at hin
  exact if_pos ⟨aligned_iff.1 hrun.aligned, hin⟩

/-- **One instruction of the model** is one of the machine, up to the alignment of its target. -/
theorem Stepped.instr (w : Stepped s b t) (hs : s.Sound) (hsize : cfg.memorySize ≤ 2 ^ 32) :
    ∃ i, s.machine.fetch s.isa = some i ∧ i.inRange cfg.memorySize s.isa = true ∧ t.isa = i.run s.isa ∧
      t.halted = i.stops ∧ t.machine = s.machine ∧
      t.arch.trace = s.arch.trace ++ [i.row s.isa (s.machine.word s.isa) (s.timing.stats.retired + 1)] := by
  have ha : Aligned s.pc := aligned_iff.1 w.running.aligned
  have hdata : s.dataMemory.size ≤ 2 ^ 32 := hs.data.trans_le hsize
  have hword : w.insn.toNat = s.word := fetch_word ha w.fetch
  have heffect := effect_isa s.dataMemory s.pc w.insn hs.zero hdata
  have hresult := effect_result s.dataMemory s.regs s.pc w.insn hdata
  have hkind := effect_kind s.dataMemory s.regs s.pc w.insn
  rw [w.effect, hword, hs.data] at heffect hresult hkind
  obtain ⟨i, hi, hin⟩ := Option.bind_eq_some_iff.1 heffect.symm
  rw [hi, Option.bind_some] at hresult hkind
  split_ifs at hin hresult hkind with hrange
  refine ⟨i, (machine_fetch hs w.running w.fetch).trans hi, hrange, ?_, ?_, ?_, ?_⟩
  · have hafter : t.isa = w.e.isa s.regs := congrArg CpuModel.isa w.after
    exact hafter.trans (Option.some.inj hin).symm
  · have hsystem := (i.access_kind s.isa).2.2.2
    rw [w.halted, Option.some.inj hkind]
    cases hstop : i.stops with
    | true => exact decide_eq_true (hsystem.2 hstop)
    | false => exact decide_eq_false fun hk => Bool.eq_false_iff.1 hstop (hsystem.1 hk)
  · exact (congrArg CpuModel.machine w.after).trans rfl
  · have hrow := event_row w.insn (Option.some.inj hkind) (Option.some.inj hresult) (s.timing.stats.retired + 1)
    rw [hword] at hrow
    rw [w.arch]
    exact congrArg (fun e => s.arch.trace ++ [e]) hrow

end Instr

section Runs

variable {n : ℕ} {s t : CpuModel cfg} {log : List (Isa.State × Isa.Instr)} {v : Isa.State}

/-- **The turns of a run that halts** are the instructions of the program. -/
theorem turns_isa (hsize : cfg.memorySize ≤ 2 ^ 32) (h : Turns n s t) (hs : s.Sound) (hlive : s.halted = false)
    (hhalt : t.halted = true) : ∃ log, s.machine.run n s.isa = some (log, t.isa) ∧ log.length = n ∧
      t.arch.trace = s.arch.trace ++ s.machine.rows s.timing.stats.retired log := by
  induction n generalizing s with
  | zero =>
    cases h
    rw [hlive] at hhalt
    cases hhalt
  | succ n ih =>
    cases h with
    | @cons _ _ u _ b _ hstep hrest =>
      obtain ⟨w⟩ := step_of_live hlive hstep
      obtain ⟨i, hfetch, hrange, hisa, hstop, hmachine, hrow⟩ := w.instr hs hsize
      cases hu : u.halted with
      | true =>
        -- the loop stops here
        have hstops : i.stops = true := hstop.symm.trans hu
        cases hrest with
        | cons hgo _ _ => exact absurd (hu.symm.trans hgo) Bool.noConfusion
        | nil =>
          have hexec : i.exec cfg.memorySize s.isa = some t.isa :=
            Isa.Machine.exec_eq_some (M := s.machine).2
              ⟨hrange, Isa.Instr.targetAligned_of_stops hstops _, hisa.symm⟩
          refine ⟨[(s.isa, i)], Isa.Machine.run_succ.2 ⟨i, t.isa, ?_, Or.inl ⟨hstops, rfl, rfl⟩⟩, rfl, hrow⟩
          exact Isa.Machine.step_eq_some.2 ⟨hfetch, hexec⟩
      | false =>
        -- the next instruction is fetched at an aligned pc
        have haligned : u.isa.pc % 4 = 0 := by
          cases hrest with
          | nil => exact absurd (hu.symm.trans hhalt) Bool.noConfusion
          | cons _ hnext _ =>
            obtain ⟨w'⟩ := step_of_live hu hnext
            exact aligned_iff.1 w'.running.aligned
        have hexec : i.exec cfg.memorySize s.isa = some u.isa :=
          Isa.Machine.exec_eq_some (M := s.machine).2
            ⟨hrange, Isa.Instr.targetAligned_of_pc (hisa ▸ haligned), hisa.symm⟩
        obtain ⟨log, hrun, hlength, htrace⟩ := ih hrest (w.sound hs) hu
        rw [hmachine] at hrun htrace
        refine ⟨(s.isa, i) :: log, Isa.Machine.run_succ.2 ⟨i, u.isa, Isa.Machine.step_eq_some.2 ⟨hfetch, hexec⟩,
          Or.inr ⟨hstop.symm.trans hu, log, hrun, rfl⟩⟩, congrArg Nat.succ hlength, ?_⟩
        rw [htrace, hrow, w.counted.2, List.append_assoc]
        rfl

/-- a store whose look-ahead fails stands in the last word, and no instruction is fetched behind it -/
theorem store_ends {i : Isa.Instr} {m : ℕ} (hs : s.Sound) (hmem : cfg.memorySize + 16 ≤ 2 ^ 32)
    (hfetch : s.machine.fetch s.isa = some i) (hstores : i.stores = true) {x : Exn} (hlook : s.look = .error x) :
    s.machine.run m (i.run s.isa) = none := by
  obtain ⟨ha, hin, -⟩ := Isa.Machine.fetch_eq_some.1 hfetch
  have hpc : s.isa.pc = s.pc.toNat := rfl
  have hbound : s.pc.toNat + 4 ≤ cfg.memorySize := hin
  have htop : s.pc ≠ 0xfffffffc := by
    intro htop
    rw [htop] at hbound
    have hval : (0xfffffffc : BitVec 32).toNat = 2 ^ 32 - 4 := rfl
    omega
  have hlast := (look_error_iff hs ha htop).1 ⟨x, hlook⟩
  have hnext : (i.run s.isa).pc = Isa.wrap (s.isa.pc + 4) := by
    cases i with
    | store w rs1 rs2 imm => rfl
    | _ => cases hstores
  have hwrap : Isa.wrap ((s.isa.pc : ℤ) + 4) = s.pc.toNat + 4 := by
    unfold Isa.wrap
    omega
  have hnone : s.machine.step (i.run s.isa) = none := by
    have hfetch' : s.machine.fetch (i.run s.isa) = none := by
      refine if_neg fun h => ?_
      have hle := h.2
      rw [hnext, hwrap] at hle
      exact absurd hle (by show ¬ s.pc.toNat + 4 + 4 ≤ cfg.memorySize; omega)
    rw [Isa.Machine.step, hfetch']
    rfl
  cases m with
  | zero => rfl
  | succ m =>
    rw [Isa.Machine.run, hnone]
    rfl

/-- **The model follows a program to its end.** -/
theorem isa_turns (hmem : cfg.memorySize + 16 ≤ 2 ^ 32) (hinv : s.Inv) (hs : s.Sound) (hlive : s.halted = false)
    (hrun : s.machine.run n s.isa = some (log, v)) (hn : s.stats.retired + n ≤ cfg.maxInstructions) :
    ∃ t, Turns log.length s t ∧ t.halted = true := by
  induction n generalizing s log with
  | zero => cases hrun
  | succ n ih =>
    obtain ⟨i, u, hstep, hcases⟩ := Isa.Machine.run_succ.1 hrun
    obtain ⟨hfetch, hexec⟩ := Isa.Machine.step_eq_some.1 hstep
    obtain ⟨ha, hin, hdecode⟩ := Isa.Machine.fetch_eq_some.1 hfetch
    obtain ⟨hrange, -, rfl⟩ := Isa.Machine.exec_eq_some.1 hexec
    have hrunning : Running s := ⟨hlive, by omega, aligned_iff.2 ha⟩
    obtain ⟨insn, hf⟩ := Memory.read32_isOk (hs.code.symm ▸ hin : s.pc.toNat + 4 ≤ s.instructionMemory.size)
    obtain ⟨e, he, hkind⟩ := effect_exists hs ha hf hdecode hrange
    have hlook : ∀ x, s.look = .error x → e.kind.stores = false := by
      intro x hx
      by_contra hne
      have hstores : i.stores = true := by
        rw [hkind] at hne
        cases i with
        | store w rs1 rs2 imm => rfl
        | _ => exact absurd rfl hne
      rcases hcases with ⟨hstop, -⟩ | ⟨-, rest, hrest, -⟩
      · exact absurd (hstop.symm.trans (Isa.Instr.stops_of_stores hstores)) Bool.noConfusion
      · rw [store_ends hs hmem hfetch hstores hx] at hrest
        cases hrest
    obtain ⟨b, t, ht⟩ := step_returns hmem hinv hrunning hf he hlook
    obtain ⟨w⟩ := step_of_live hlive ht
    obtain ⟨j, hj, -, hisa, hhalt, hmachine, -⟩ := w.instr hs (by omega)
    obtain rfl : i = j := Option.some.inj (hfetch.symm.trans hj)
    rcases hcases with ⟨hstop, rfl, rfl⟩ | ⟨hgo, rest, hrest, rfl⟩
    · exact ⟨t, .cons hlive ht .nil, hhalt.trans hstop⟩
    · have hcount := w.counted
      have hreported := hinv.reported.retired
      rw [← hisa, ← hmachine] at hrest
      obtain ⟨t', hpath, hhalted⟩ := ih (w.inv hinv hmem) (w.sound hs) (hhalt.trans hgo) hrest (by omega)
      exact ⟨t', .cons hlive ht hpath, hhalted⟩

/-- a throw for any other reason comes below the limit -/
theorem Thrown.limit_iff {x : Exn} (h : Thrown s x t) (hle : s.stats.retired ≤ cfg.maxInstructions) :
    t.stats.retired = s.stats.retired ∧ (x = .maxInstructions ↔ s.stats.retired = cfg.maxInstructions) := by
  cases h with
  | limit hmax => exact ⟨rfl, iff_of_true rfl (le_antisymm hle hmax)⟩
  | misaligned hlt _ => exact ⟨rfl, iff_of_false (by simp) hlt.ne⟩
  | fetch hrun hf =>
    have hx := (Memory.read32_error.1 hf).2
    exact ⟨rfl, iff_of_false (by rw [hx]; simp) hrun.below.ne⟩
  | switch hrun _ _ he =>
    refine ⟨?_, iff_of_false ?_ hrun.below.ne⟩
    · show (earlyCount _ s.stats).retired = s.stats.retired
      unfold earlyCount
      split_ifs <;> rfl
    · rcases effect_error he with ⟨reason, hx⟩ | ⟨addr, width, hx⟩
      all_goals
        rw [hx]
        simp
  | lookahead hrun _ _ hc =>
    obtain ⟨_, _, _, _, _, _, hfault, _⟩ := (Caches.charge_throw (aligned_iff.1 hrun.aligned)).1 hc
    have hx := (Memory.read32_error.1 (look_error (Caches.lookFault_some.1 hfault).2.1)).2
    exact ⟨rfl, iff_of_false (by rw [hx]; simp) hrun.below.ne⟩

/-- the rows and the retired count stay within the limit -/
structure Within (s : CpuModel cfg) : Prop where
  recorded : s.Recorded
  limit : s.stats.retired ≤ cfg.maxInstructions

theorem Stepped.within {b : Bool} (w : Stepped s b t) (h : s.Within) : t.Within := by
  have hrec := w.record h.recorded
  refine ⟨hrec, ?_⟩
  have hcount := w.counted
  have hbelow := w.running.below
  have hsame := h.recorded.retired.trans h.recorded.timing.symm
  omega

theorem within_called {s₀ : CpuModel cfg} (h₀ : s₀.Within) (h : Exec.Called step s₀ s) : s.Within := by
  apply called_inv _ _ h h₀
  · intro s t b w hs
    exact w.within hs
  · intro s t x w hs
    exact ⟨w.record hs.recorded, ((w.limit_iff hs.limit).1).trans_le hs.limit⟩

/-- the turns of a loop add one row each -/
theorem turns_rows (h : Turns n s t) : s.trace <+: t.trace := by
  refine h.inv (P := fun u => s.trace <+: u.trace) ?_ (List.prefix_refl _)
  intro u v b w hu
  obtain ⟨row, htrace, -⟩ := w.row
  rw [htrace]
  exact hu.trans (List.prefix_append _ _)

/-- what two recorded states have between them -/
theorem Within.between (hs : s.Within) (ht : t.Within) (h : s.trace <+: t.trace) :
    ∃ rows, t.trace = s.trace ++ rows ∧ t.stats.retired = s.stats.retired + rows.length := by
  obtain ⟨rows, hrows⟩ := h
  refine ⟨rows, hrows.symm, ?_⟩
  rw [ht.recorded.retired, hs.recorded.retired, ← hrows, List.length_append]

theorem called_trans {s₀ : CpuModel cfg} (h : Exec.Called step s₀ s) (ht : Turns n s t) : Exec.Called step s₀ t := by
  induction ht with
  | nil => exact h
  | cons _ hstep _ ih => exact ih (h.ok hstep)

/-- **A run hangs nowhere**, in a memory that ends at least four words below 2^32. -/
theorem run_ne_diverge {s₀ : CpuModel cfg} (hmem : cfg.memorySize + 16 ≤ 2 ^ 32) (h₀ : s₀.Sound)
    (hs : Exec.Called step s₀ s) : run s ≠ .diverge := by
  intro hhang
  obtain ⟨n, u, hpath, hstep⟩ := run_diverge.1 hhang
  have hsound := called_sound h₀ (called_trans hs hpath)
  have htop := (step_diverges_iff hsound).1 hstep
  have hin := htop.inside
  -- the last words of the address space are outside memory
  have hval : (0xfffffff0 : BitVec 32).toNat = 2 ^ 32 - 16 ∧ (0xfffffff4 : BitVec 32).toNat = 2 ^ 32 - 12 ∧
      (0xfffffffc : BitVec 32).toNat = 2 ^ 32 - 4 := ⟨rfl, rfl, rfl⟩
  rcases htop.reaches with hpc | ⟨_, _, _, _, ⟨hpc, _⟩ | ⟨hpc, _⟩⟩
  all_goals
    rw [hpc] at hin
    omega

end Runs

/-! ## Runs from reset -/

section Boot

variable {h : cfg.Accepted} {program data : ℕ → BitVec 8} {pc : BitVec 32}

/-- the program in an image -/
def imageMachine (cfg : CpuConfig) (program : ℕ → BitVec 8) : Isa.Machine :=
  ⟨(Memory.ofImage cfg.memorySize program).image, cfg.memorySize⟩

/-- where it starts, over an image of data -/
def imageStart (cfg : CpuConfig) (data : ℕ → BitVec 8) (pc : BitVec 32) : Isa.State :=
  ⟨fun _ => 0, pc.toNat, (Memory.ofImage cfg.memorySize data).image⟩

theorem boot_returns (hmem : cfg.memorySize + 16 ≤ 2 ^ 32) {t : CpuModel cfg}
    (ht : run (boot cfg h program data pc) = .ok () t) : ∃ log,
      (imageMachine cfg program).run cfg.maxInstructions (imageStart cfg data pc) = some (log, t.isa) ∧
      t.trace.map RetireEvent.untimed = (imageMachine cfg program).rows 0 log ∧ t.stats.retired = log.length := by
  obtain ⟨n, hpath, hhalt⟩ := run_ok.1 ht
  obtain ⟨log, hrun, hlength, htrace⟩ := turns_isa (by omega) hpath (sound_boot h program data pc) rfl hhalt
  have hrec := recorded_called (recorded_boot h program data pc) (.of_iter hpath.iter)
  have hrows : t.trace.map RetireEvent.untimed = (imageMachine cfg program).rows 0 log := htrace
  refine ⟨log, Isa.Machine.run_mono hrun (path_length hpath), hrows, ?_⟩
  calc t.stats.retired = t.trace.length := hrec.retired
    _ = (t.trace.map RetireEvent.untimed).length := (List.length_map _).symm
    _ = log.length := by rw [hrows, Isa.Machine.rows_length]

theorem boot_follows (hmem : cfg.memorySize + 16 ≤ 2 ^ 32)
    (hsome : ((imageMachine cfg program).run cfg.maxInstructions (imageStart cfg data pc)).isSome = true) :
    ∃ t, run (boot cfg h program data pc) = .ok () t := by
  obtain ⟨⟨log, v⟩, hrun⟩ := Option.isSome_iff_exists.1 hsome
  obtain ⟨t, hpath, hhalt⟩ := isa_turns hmem (inv_boot h program data pc) (sound_boot h program data pc) rfl hrun
    (Nat.zero_add _).le
  exact ⟨t, run_ok.2 ⟨_, hpath, hhalt⟩⟩

end Boot

end CpuModel

open CpuModel

/-- **A run computes the instruction set.** In a memory that ends at least four words below 2^32, with any caches, a run
from reset returns exactly where the program ends with ECALL or EBREAK within the limit and without an exception. It
leaves the registers, the pc and the data memory that the program leaves, and the rows of its trace are the rows of the
program's instructions. -/
theorem run_computes_isa (cfg : CpuConfig) (h : cfg.Accepted) (hmem : cfg.memorySize + 16 ≤ 2 ^ 32)
    (program data : ℕ → BitVec 8) (pc : BitVec 32) :
    let M := imageMachine cfg program
    let start := imageStart cfg data pc
    (∀ t, run (boot cfg h program data pc) = .ok () t → ∃ log, M.run cfg.maxInstructions start = some (log, t.isa) ∧
      t.trace.map RetireEvent.untimed = M.rows 0 log ∧ t.stats.retired = log.length) ∧
    ((M.run cfg.maxInstructions start).isSome = true → ∃ t, run (boot cfg h program data pc) = .ok () t) :=
  ⟨fun _ ht => boot_returns hmem ht, boot_follows hmem⟩

/-- the eleven instructions of a program that ends -/
theorem run_computes_isa_cacheTest :
    ∃ t log, run (boot splitCaches splitCaches_accepted (wordImage cacheTest) 0 0) = .ok () t ∧
      t.trace.map RetireEvent.untimed = (imageMachine splitCaches (wordImage cacheTest)).rows 0 log ∧
      log.length = 11 := by
  obtain ⟨hreturns, hfollows⟩ := run_computes_isa splitCaches splitCaches_accepted (by decide) (wordImage cacheTest) 0 0
  have hprogram : (((imageMachine splitCaches (wordImage cacheTest)).run 11 (imageStart splitCaches 0 0)).map
      fun p => p.1.length) = some 11 := by decide +kernel
  obtain ⟨⟨log, v⟩, hlog, hlength⟩ := Option.map_eq_some_iff.1 hprogram
  have hlimit : 11 ≤ splitCaches.maxInstructions := by decide
  obtain ⟨t, ht⟩ := hfollows (Option.isSome_iff_exists.2 ⟨_, Isa.Machine.run_mono hlog hlimit⟩)
  obtain ⟨log', hlog', htrace, -⟩ := hreturns t ht
  obtain ⟨rfl, -⟩ := Prod.mk.inj (Option.some.inj ((Isa.Machine.run_mono hlog hlimit).symm.trans hlog'))
  exact ⟨t, log, ht, htrace, hlength⟩

/-- **Every run ends**, from any state that calls reach, in a memory that ends at least four words below 2^32. It halts
or throws, with one row for each retired instruction and never more of them than the limit. It throws the limit exactly
when the limit is reached. The fuel of the loop makes no difference. -/
theorem run_ends (cfg : CpuConfig) (h : cfg.Accepted) (hmem : cfg.memorySize + 16 ≤ 2 ^ 32)
    (program data : ℕ → BitVec 8) (pc : BitVec 32) (s : CpuModel cfg)
    (hs : Exec.Called step (boot cfg h program data pc) s) :
    run s ≠ .diverge ∧ (∀ k, cfg.maxInstructions < k → runLoop k s = run s) ∧
    (∀ t, run s = .ok () t → t.halted = true) ∧
    (∀ x t, run s = .throw x t → t.halted = false ∧
      (x = .maxInstructions ↔ t.stats.retired = cfg.maxInstructions)) ∧
    ∀ t, (run s = .ok () t ∨ ∃ x, run s = .throw x t) → t.stats.retired ≤ cfg.maxInstructions ∧
      ∃ rows, t.trace = s.trace ++ rows ∧ t.stats.retired = s.stats.retired + rows.length := by
  have hboot : (boot cfg h program data pc).Within := ⟨recorded_boot h program data pc, Nat.zero_le _⟩
  have hwithin : ∀ u, Exec.Called step (boot cfg h program data pc) u → u.Within := fun u hu => within_called hboot hu
  refine ⟨run_ne_diverge hmem (sound_boot h program data pc) hs, fun k hk => run_fuel s hk, ?_, ?_, ?_⟩
  · intro t ht
    obtain ⟨n, -, hhalt⟩ := run_ok.1 ht
    exact hhalt
  · intro x t ht
    obtain ⟨n, u, hpath, hthrow⟩ := run_throw.1 ht
    have hlive := live_of_throw hthrow
    have hthrown := (step_throw hlive).1 hthrow
    obtain ⟨hsame, hiff⟩ := hthrown.limit_iff (hwithin u (called_trans hs hpath)).limit
    refine ⟨hthrown.frame.2.2.1.trans hlive, ?_⟩
    rw [hsame]
    exact hiff
  · intro t ht
    have hreach : Exec.Called step (boot cfg h program data pc) t ∧ s.trace <+: t.trace := by
      rcases ht with hok | ⟨x, hthrow⟩
      · obtain ⟨n, hpath, -⟩ := run_ok.1 hok
        exact ⟨called_trans hs hpath, turns_rows hpath⟩
      · obtain ⟨n, u, hpath, hstep⟩ := run_throw.1 hthrow
        have hthrown := (step_throw (live_of_throw hstep)).1 hstep
        exact ⟨(called_trans hs hpath).throw hstep, hthrown.frame.2.2.2.1.symm ▸ turns_rows hpath⟩
    exact ⟨(hwithin t hreach.1).limit, (hwithin s hs).between (hwithin t hreach.1) hreach.2⟩

/-- a run that starts behind the first instruction of a program -/
theorem run_ends_cacheTest : ∃ s, Exec.iter step 1 (boot splitCaches splitCaches_accepted (wordImage cacheTest) 0 0) =
    some s ∧ run s ≠ .diverge ∧ ∀ t, run s = .ok () t → t.halted = true := by
  obtain ⟨s, hs⟩ := Option.isSome_iff_exists.1 (by decide +kernel :
    (Exec.iter step 1 (boot splitCaches splitCaches_accepted (wordImage cacheTest) 0 0)).isSome = true)
  obtain ⟨hends, -, hhalts, -⟩ := run_ends splitCaches splitCaches_accepted (by decide) (wordImage cacheTest) 0 0 s
    (.of_iter hs)
  exact ⟨s, hs, hends, hhalts⟩

end Rv32im
