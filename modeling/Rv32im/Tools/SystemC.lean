/-
The model in SystemC (`systemc/RV32IMSystemC.cpp`, `systemc/systemc_main.cpp`): a clocked module around it, and the
program that runs the module.

The simulation kernel is not part of the repository. It is a parameter: what `sc_start` does with the module, given that
it calls `tick` on every rising edge of the clock until `sc_stop` has been called. What the kernel itself prints is left
out.

- `tick`: one rising edge. `Kernel.Clocked`: what is used of the kernel. `main`: the program.
- `tick_live`, `tick_throw`: one rising edge is one step. `start_ok`, `start_throw`: `sc_start` is a run.
- `clocked_loop`: a loop of rising edges is such a kernel.
-/
import Rv32im.Step.Throw
import Rv32im.Tools.Main

namespace Rv32im

/-- the module: the model, the value on the port `halted`, and whether `sc_stop` has been called -/
structure RV32IMSystemC (cfg : CpuConfig) where
  cpu : CpuModel cfg
  halted : Bool := false
  stopped : Bool := false

namespace SystemC

variable {cfg : CpuConfig}

/-- `halted.write(true)` and `sc_stop()` -/
def stop : Exec Exn (RV32IMSystemC cfg) Unit := Exec.modify fun s => { s with halted := true, stopped := true }

def tick : Exec Exn (RV32IMSystemC cfg) Unit := do
  let s ← Exec.get
  if s.cpu.halted then stop
  else do
    let _ ← Exec.zoom RV32IMSystemC.cpu (fun cpu s => { s with cpu := cpu }) CpuModel.step
    let s ← Exec.get
    if s.cpu.halted then stop else return ()

/-- what `sc_start` does with the module, and the text of an exception that has left `tick` -/
structure Kernel (cfg : CpuConfig) where
  start : RV32IMSystemC cfg → Outcome Exn (RV32IMSystemC cfg) Unit
  what : Exn → String

/-- `tick` is called on every rising edge until `sc_stop` has been called -/
structure Kernel.Clocked (k : Kernel cfg) : Prop where
  stopped : ∀ s, s.stopped = true → k.start s = .ok () s
  edge : ∀ s t, s.stopped = false → tick s = .ok () t → k.start s = k.start t
  thrown : ∀ s t x, s.stopped = false → tick s = .throw x t → k.start s = .throw x t

/-! ## The program -/

def usage (argv0 : String) : String := "Usage: " ++ argv0 ++ " <program.hex> [trace.csv]\n"

/-- `argc >= 3 ? argv[2] : ...` -/
def tracePath (args : List String) : String := args.headD "results/systemc_trace.csv"

/-- what is left where an exception comes behind the opening of the trace -/
def written (path : String) (rows : List RetireEvent) : Ended :=
  { trace := if path = "" then none else some (Writer.traceWriter.file rows) }

/-- `sc_start()` and what follows it -/
def ending (fl : Floats) (k : Kernel cfg) (path : String) :
    Outcome Exn (RV32IMSystemC cfg) Unit → Option Ended
  | .diverge => none
  | .throw e t => some { written path t.cpu.trace with code := 1, stderr := ("ERROR: " ++ k.what e ++ "\n").toList }
  | .ok _ t =>
    let stats := t.cpu.stats
    some { written path t.cpu.trace with
      stdout := (stats.print (fl.rates stats)).toList ++ ("\nSystemC trace: ".toList ++ path.toList ++ ['\n']) }

/-- `sc_main` behind its arguments, for a configuration -/
def simulate (cfg : CpuConfig) (w : World) (fl : Floats) (k : Kernel cfg) (program path : String) : Option Ended :=
  match Main.construct w cfg with
  | .error e => some (Main.failed e {})
  | .ok cpu =>
    if path ≠ "" ∧ w.opens path = false then some (Main.failed (.traceNotOpened path) {})
    else
      match HexLoader.loadHexWords program (w.files program) 0 cpu.instructionMemory with
      | .diverge => none
      | .throw e _ => some (Main.failed (.load e) (written path []))
      | .ok _ code =>
        let cpu := { cpu with instructionMemory := code }
        ending fl k path (k.start { cpu := cpu.reset cfg.resetPc })

/-- `sc_main`, with the arguments behind `argv[0]` -/
def main (w : World) (fl : Floats) (k : Kernel {}) (argv0 : String) : List String → Option Ended
  | [] => some { code := 2, stderr := (usage argv0).toList }
  | program :: args => simulate {} w fl k program (tracePath args)

/-! ## Rising edges -/

section

variable {k : Kernel cfg} {s t : CpuModel cfg} {n : ℕ} {x : Exn}

/-- the module behind a step -/
def behind (s : CpuModel cfg) : RV32IMSystemC cfg := ⟨s, s.halted, s.halted⟩

/-- **One rising edge is one step.** -/
theorem tick_live {b : Bool} (hlive : s.halted = false) (hstep : CpuModel.step s = .ok b t) :
    tick (behind s) = .ok () (behind t) := by
  have hlive' : ¬ (behind s).cpu.halted = true := by
    rw [behind, hlive]
    exact Bool.false_ne_true
  have hzoom : Exec.zoom RV32IMSystemC.cpu (fun cpu s => { s with cpu := cpu }) CpuModel.step (behind s) =
      .ok b { behind s with cpu := t } := Exec.zoom_ok.2 ⟨t, hstep, rfl⟩
  unfold tick
  rw [Exec.bind_apply, Exec.get_apply, Exec.andThen_ok, if_neg hlive', Exec.bind_apply, hzoom, Exec.andThen_ok,
    Exec.bind_apply, Exec.get_apply, Exec.andThen_ok]
  unfold behind
  rw [hlive]
  cases t.halted <;> rfl

theorem tick_throw (hthrow : CpuModel.step s = .throw x t) (hlive : s.halted = false) :
    tick (behind s) = .throw x { behind s with cpu := t } := by
  have hlive' : ¬ (behind s).cpu.halted = true := by
    rw [behind, hlive]
    exact Bool.false_ne_true
  have hzoom : Exec.zoom RV32IMSystemC.cpu (fun cpu s => { s with cpu := cpu }) CpuModel.step (behind s) =
      .throw x { behind s with cpu := t } := Exec.zoom_throw.2 ⟨t, hthrow, rfl⟩
  unfold tick
  rw [Exec.bind_apply, Exec.get_apply, Exec.andThen_ok, if_neg hlive', Exec.bind_apply, hzoom]
  rfl

/-- the rising edges of a run that goes on -/
theorem start_turns (hk : k.Clocked) (hpath : CpuModel.Turns n s t) : k.start (behind s) = k.start (behind t) := by
  induction hpath with
  | nil => rfl
  | @cons _ s u _ _ hlive hstep _ ih => rw [hk.edge (behind s) (behind u) hlive (tick_live hlive hstep), ih]

/-- **`sc_start` is a run**: it ends with the module that holds the halted model. -/
theorem start_ok (hk : k.Clocked) (hrun : CpuModel.run s = .ok () t) :
    k.start (behind s) = .ok () ⟨t, true, true⟩ := by
  obtain ⟨n, hpath, hhalt⟩ := CpuModel.run_ok.1 hrun
  rw [start_turns hk hpath, hk.stopped (behind t) hhalt, behind, hhalt]

theorem start_throw (hk : k.Clocked) (hrun : CpuModel.run s = .throw x t) :
    k.start (behind s) = .throw x ⟨t, false, false⟩ := by
  obtain ⟨n, u, hpath, hthrow⟩ := CpuModel.run_throw.1 hrun
  have hlive := CpuModel.live_of_throw hthrow
  rw [start_turns hk hpath, hk.thrown (behind u) _ x hlive (tick_throw hthrow hlive), behind, hlive]

end

/-! ## A kernel -/

/-- a loop of rising edges -/
def Kernel.loop (cfg : CpuConfig) : Kernel cfg where
  start := Exec.loop RV32IMSystemC.stopped tick (cfg.maxInstructions + 2)
  what := Exn.what

/-- a rising edge that does not stop is a step -/
theorem tick_ok {s t : RV32IMSystemC cfg} (h : tick s = .ok () t) (hgo : t.stopped = false) :
    s.cpu.halted = false ∧ ∃ b, CpuModel.step s.cpu = .ok b t.cpu := by
  unfold tick at h
  obtain ⟨a, u, hget, hrest⟩ := Exec.bind_ok.1 h
  obtain ⟨rfl, rfl⟩ := Outcome.ok.inj hget
  by_cases hh : s.cpu.halted = true
  · rw [if_pos hh] at hrest
    cases hrest
    cases hgo
  · rw [if_neg hh] at hrest
    obtain ⟨b, u, hzoom, hrest⟩ := Exec.bind_ok.1 hrest
    obtain ⟨v, hstep, rfl⟩ := Exec.zoom_ok.1 hzoom
    obtain ⟨a, w, hget, hrest⟩ := Exec.bind_ok.1 hrest
    obtain ⟨rfl, rfl⟩ := Outcome.ok.inj hget
    have hcpu : t.cpu = v := by
      split_ifs at hrest <;> cases hrest <;> rfl
    exact ⟨Bool.of_not_eq_true hh, b, hcpu ▸ hstep⟩

theorem ticks_turns {s t : RV32IMSystemC cfg} {n : ℕ} (h : Exec.Path RV32IMSystemC.stopped tick n s t)
    (hgo : t.stopped = false) : CpuModel.Turns n s.cpu t.cpu := by
  induction n generalizing t with
  | zero =>
    cases h
    exact .nil
  | succ n ih =>
    obtain ⟨u, a, hpath, hlive, htick⟩ := h.last
    obtain ⟨hrun, b, hstep⟩ := tick_ok htick hgo
    exact (ih hpath hlive).snoc hrun hstep

/-- it stops at the latest one rising edge behind the limit -/
theorem ticks_length {s t : RV32IMSystemC cfg} {n : ℕ} (h : Exec.Path RV32IMSystemC.stopped tick n s t) :
    n ≤ cfg.maxInstructions + 1 := by
  cases n with
  | zero => exact Nat.zero_le _
  | succ n =>
    obtain ⟨u, a, hpath, hlive, -⟩ := h.last
    exact Nat.succ_le_succ (CpuModel.path_length (ticks_turns hpath hlive))

/-- **The loop is a clocked kernel**, from every state of the module. -/
theorem clocked_loop (cfg : CpuConfig) : (Kernel.loop cfg).Clocked where
  stopped s hstop := Exec.loop_of_done hstop
  edge s t hgo htick := by
    have hshort : ∀ n u, Exec.Path RV32IMSystemC.stopped tick n t u → n < cfg.maxInstructions + 1 :=
      fun n u hpath => ticks_length (.cons hgo htick hpath)
    calc (Kernel.loop cfg).start s = (tick s).andThen fun _ => Exec.loop _ tick (cfg.maxInstructions + 1) :=
          Exec.loop_of_live hgo
      _ = Exec.loop RV32IMSystemC.stopped tick (cfg.maxInstructions + 1) t := by rw [htick]; rfl
      _ = (Kernel.loop cfg).start t := (Exec.loop_fuel hshort (Nat.le_succ _)).symm
  thrown s t x hgo htick := by
    have hfirst : (Kernel.loop cfg).start s = (tick s).andThen fun _ => Exec.loop _ tick (cfg.maxInstructions + 1) :=
      Exec.loop_of_live hgo
    rw [hfirst, htick]
    rfl

end SystemC

end Rv32im
