/-
`CpuModel::run` (`src/CpuModel.cpp`): `while (!halted_) step();`.

Each turn retires an instruction or throws, and at the retirement limit a step throws. So no run takes more than
`maxInstructions` turns, and `run` has fuel for one more.

- `path_length`: the turns of a loop, from any state.
- `run_fuel`: the loop does the same with any more fuel, so the fuel never ends it.
- `run_ok`, `run_throw`, `run_diverge`: what a run can do, from its turns.
-/
import Rv32im.Core.Loop
import Rv32im.Step.Factor

namespace Rv32im

namespace CpuModel

variable {cfg : CpuConfig}

/-- `while (!halted_)` -/
def runLoop (fuel : ℕ) : StepM cfg Unit := Exec.loop (fun s => s.halted) step fuel

def run : StepM cfg Unit := runLoop (cfg.maxInstructions + 1)

/-- n turns of the loop -/
def Turns (n : ℕ) (s t : CpuModel cfg) : Prop := Exec.Path (fun s => s.halted) step n s t

section Runs

variable {n k : ℕ} {s t : CpuModel cfg} {b : Bool} {x : Exn}

/-- a turn counts its instruction -/
theorem Stepped.counted (w : Stepped s b t) : t.stats.retired = t.timing.stats.retired ∧
    t.timing.stats.retired = s.timing.stats.retired + 1 := by
  rw [w.after]
  exact ⟨rfl, rfl⟩

/-- behind the first turn the limit counts the turns -/
theorem path_counts (h : Turns (n + 1) s t) : n + 1 ≤ t.timing.stats.retired ∧
    t.stats.retired = t.timing.stats.retired ∧ n < max 1 cfg.maxInstructions := by
  induction n generalizing t with
  | zero =>
    obtain ⟨u, b, -, hlive, hs⟩ := h.last
    obtain ⟨w⟩ := step_of_live hlive hs
    obtain ⟨hcount, hnext⟩ := w.counted
    exact ⟨by omega, hcount, by omega⟩
  | succ n ih =>
    obtain ⟨u, b, hu, hlive, hs⟩ := h.last
    obtain ⟨w⟩ := step_of_live hlive hs
    obtain ⟨hcount, hnext⟩ := w.counted
    obtain ⟨hmany, hsame, -⟩ := ih hu
    have hbelow := w.running.below
    exact ⟨by omega, hcount, by omega⟩

/-- **A loop takes at most `maxInstructions` turns**, from any state. -/
theorem path_length (h : Turns n s t) : n ≤ cfg.maxInstructions := by
  cases n with
  | zero => exact Nat.zero_le _
  | succ n =>
    have hpos : 0 < cfg.maxInstructions := by
      obtain ⟨u, b, -, hlive, hs⟩ := h.last
      obtain ⟨w⟩ := step_of_live hlive hs
      exact Nat.zero_lt_of_lt w.running.below
    have hcount := (path_counts h).2.2
    omega

/-- **The fuel of a run is no bound on it.** -/
theorem run_fuel (s : CpuModel cfg) (h : cfg.maxInstructions < k) : runLoop k s = run s := by
  apply Exec.loop_fuel _ h
  intro n t hpath
  exact Nat.lt_succ_of_le (path_length hpath)

theorem run_ok {a : Unit} : run s = .ok a t ↔ ∃ n, Turns n s t ∧ t.halted = true := by
  refine Exec.loop_ok.trans ⟨?_, ?_⟩
  · rintro ⟨n, -, hpath, ht⟩
    exact ⟨n, hpath, ht⟩
  · rintro ⟨n, hpath, ht⟩
    exact ⟨n, Nat.lt_succ_of_le (path_length hpath), hpath, ht⟩

theorem run_throw : run s = .throw x t ↔ ∃ n u, Turns n s u ∧ step u = .throw x t := by
  refine Exec.loop_throw.trans ⟨?_, ?_⟩
  · rintro ⟨n, -, u, hpath, -, hthrow⟩
    exact ⟨n, u, hpath, hthrow⟩
  · rintro ⟨n, u, hpath, hthrow⟩
    refine ⟨n, Nat.lt_succ_of_le (path_length hpath), u, hpath, ?_, hthrow⟩
    cases hh : u.halted with
    | false => rfl
    | true =>
      rw [step_of_halted hh] at hthrow
      cases hthrow

/-- a run hangs in a step, and in no other way -/
theorem run_diverge : run s = .diverge ↔ ∃ n u, Turns n s u ∧ step u = .diverge := by
  refine Exec.loop_diverge.trans ⟨?_, ?_⟩
  · rintro (⟨n, -, u, hpath, -, hhang⟩ | ⟨u, hpath⟩)
    · exact ⟨n, u, hpath, hhang⟩
    · exact absurd (path_length hpath) (Nat.not_succ_le_self _)
  · rintro ⟨n, u, hpath, hhang⟩
    refine Or.inl ⟨n, Nat.lt_succ_of_le (path_length hpath), u, hpath, ?_, hhang⟩
    cases hh : u.halted with
    | false => rfl
    | true =>
      rw [step_of_halted hh] at hhang
      cases hhang

/-- the turns of a loop are consecutive steps -/
theorem Turns.iter (h : Turns n s t) : Exec.iter step n s = some t := Exec.Path.iter h

/-- what every instruction keeps, along the turns of a loop -/
theorem Turns.inv {P : CpuModel cfg → Prop} (hP : ∀ s t b, Stepped s b t → P s → P t) (h : Turns n s t) (hs : P s) :
    P t := run_inv hP h.iter hs

end Runs

end CpuModel

end Rv32im
