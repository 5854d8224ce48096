/-
The pipeline timing model (`src/PipelineTimingModel.cpp`, `include/rv32im/PipelineTimingModel.hpp`).

It looks back one instruction: whether the previous one was a load (and of which register) and whether it was a
division. Load-use and divider penalties are charged before the retirement of the instruction that suffers them,
redirect penalties after the retirement of the instruction that causes them.

- `erase`: the model without its stall total. `retire_erase`: everything but the stall total evolves independently of
  the external stalls.
- `retire_accumulated`: what one retirement adds to the stall total.
-/
import Rv32im.Model.Basic

namespace Rv32im

/-! ## Model -/

structure PipelineTimingConfig where
  pipelineDepth : ℕ := 5
  loadUsePenalty : ℕ := 1
  takenBranchPenalty : ℕ := 2
  jumpRedirectPenalty : ℕ := 2
  dividerLatency : ℕ := 8
  dividerInitiationInterval : ℕ := 1
deriving DecidableEq, Repr

structure PipelineTimingStats where
  retired : ℕ := 0
  baseInstructionCycles : ℕ := 0
  pipelineFillDrain : ℕ := 0
  loadUseStalls : ℕ := 0
  branchRedirectStalls : ℕ := 0
  jumpRedirectStalls : ℕ := 0
  dividerStalls : ℕ := 0
  totalCycles : ℕ := 0
deriving DecidableEq, Repr

structure TimingRetireResult where
  retireCycle : ℕ := 0
  loadUseHazard : Bool := false
  takenBranchRedirect : Bool := false
  jumpRedirect : Bool := false
  dividerStartupStall : Bool := false
deriving DecidableEq, Repr

structure DecodedTimingInfo where
  usesRs1 : Bool := false
  usesRs2 : Bool := false
  isLoad : Bool := false
  isBranch : Bool := false
  isJump : Bool := false
  isDivRem : Bool := false
  rs1 : Fin 32 := 0
  rs2 : Fin 32 := 0
  rd : Fin 32 := 0
deriving DecidableEq, Repr

structure PipelineTimingModel (config : PipelineTimingConfig) where
  stats : PipelineTimingStats := {}
  previousWasLoad : Bool := false
  previousLoadRd : Fin 32 := 0
  previousWasDivRem : Bool := false
  accumulatedStalls : ℕ := 0
deriving DecidableEq, Repr

namespace PipelineTimingModel

variable {config : PipelineTimingConfig}

def reset (_p : PipelineTimingModel config) : PipelineTimingModel config := {}

def addExternalStalls (p : PipelineTimingModel config) (cycles : BitVec 32) : PipelineTimingModel config :=
  { p with accumulatedStalls := p.accumulatedStalls + cycles.toNat }

def decode (insn : BitVec 32) : DecodedTimingInfo :=
  let info : DecodedTimingInfo := { rd := rd insn, rs1 := rs1 insn, rs2 := rs2 insn }
  match opcode insn with
  | 0x67 => { info with usesRs1 := true, isJump := true }
  | 0x6f => { info with isJump := true }
  | 0x63 => { info with usesRs1 := true, usesRs2 := true, isBranch := true }
  | 0x03 => { info with usesRs1 := true, isLoad := true }
  | 0x23 => { info with usesRs1 := true, usesRs2 := false }
  | 0x13 => { info with usesRs1 := true }
  | 0x33 => { info with usesRs1 := true, usesRs2 := true, isDivRem := funct7 insn = 0x01 ∧ 0x04 ≤ funct3 insn }
  | _ => info

/-- the load-use interlock in front of an instruction -/
def loadUseHazard (p : PipelineTimingModel config) (current : DecodedTimingInfo) : Bool :=
  p.previousWasLoad && p.previousLoadRd ≠ 0 &&
    ((current.usesRs1 && current.rs1 = p.previousLoadRd) || (current.usesRs2 && current.rs2 = p.previousLoadRd))

/-- the stall a division pays before it retires -/
def dividerPenalty (p : PipelineTimingModel config) : ℕ :=
  if !p.previousWasDivRem then
    if config.dividerLatency > 0 then config.dividerLatency - 1 else 0
  else if config.dividerInitiationInterval > 1 then config.dividerInitiationInterval - 1
  else 0

def retire (p : PipelineTimingModel config) (insn : BitVec 32) (branchTaken : Bool) :
    TimingRetireResult × PipelineTimingModel config :=
  let current := decode insn
  let hazard := p.loadUseHazard current
  let lu := if hazard then config.loadUsePenalty else 0
  let div := if current.isDivRem then p.dividerPenalty else 0
  let retired := p.stats.retired + 1
  let fill := if retired = 0 then 0 else if config.pipelineDepth > 0 then config.pipelineDepth - 1 else 0
  let beforeRetire := p.accumulatedStalls + lu + div
  let retireCycle := retired + fill + beforeRetire
  -- redirect penalties apply to the following retirements
  let branchRedirect := current.isBranch && branchTaken
  let br := if branchRedirect then config.takenBranchPenalty else 0
  let ju := if current.isJump then config.jumpRedirectPenalty else 0
  let accumulated := beforeRetire + br + ju
  ({ retireCycle := retireCycle
     loadUseHazard := hazard
     takenBranchRedirect := branchRedirect
     jumpRedirect := current.isJump
     dividerStartupStall := current.isDivRem && !p.previousWasDivRem && div ≠ 0 },
   { stats :=
      { retired := retired
        baseInstructionCycles := retired
        pipelineFillDrain := fill
        loadUseStalls := p.stats.loadUseStalls + lu
        branchRedirectStalls := p.stats.branchRedirectStalls + br
        jumpRedirectStalls := p.stats.jumpRedirectStalls + ju
        dividerStalls := p.stats.dividerStalls + div
        totalCycles := retired + fill + accumulated }
     previousWasLoad := current.isLoad
     previousLoadRd := if current.isLoad then current.rd else 0
     previousWasDivRem := current.isDivRem
     accumulatedStalls := accumulated })

/-! ## The stall total is write-only -/

/-- the model without its stall total -/
def erase (p : PipelineTimingModel config) : PipelineTimingModel config :=
  { p with accumulatedStalls := 0, stats := { p.stats with totalCycles := 0 } }

theorem retire_erase (p : PipelineTimingModel config) (cycles insn : BitVec 32) (taken : Bool) :
    ((p.addExternalStalls cycles).retire insn taken).2.erase = (p.erase.retire insn taken).2.erase := rfl

/-- the sum of the four pipeline stall counters -/
def pipelineStalls (s : PipelineTimingStats) : ℕ :=
  s.loadUseStalls + s.branchRedirectStalls + s.jumpRedirectStalls + s.dividerStalls

/-- a retirement adds to the stall total what it adds to the four counters -/
theorem retire_accumulated (p : PipelineTimingModel config) (insn : BitVec 32) (taken : Bool) :
    (p.retire insn taken).2.accumulatedStalls + pipelineStalls p.stats =
      p.accumulatedStalls + pipelineStalls (p.retire insn taken).2.stats := by
  simp only [retire, pipelineStalls]
  omega

end PipelineTimingModel

end Rv32im
