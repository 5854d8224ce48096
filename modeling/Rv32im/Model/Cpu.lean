/-
The CPU model (`src/CpuModel.cpp`, `include/rv32im/CpuModel.hpp`): one `step` executes one instruction functionally
and charges its cache, fetch and pipeline timing.

A `step` is a call over the whole model: what it wrote before it throws stays written, and it does not return when the
fetch loop does not. The order of the reads, writes and throws is the source's. Configurations index the model, since
no call changes them. 64-bit counters are naturals.

`trace` is the sequence of events handed to the trace writer. `dcacheOutcomes` is a history variable: the D-cache
results of the loads and stores, oldest first, without the filled-line replays. No function reads it.

`boot` is the state after construction, loading a program and a data image, and `reset`.
-/
import Rv32im.Model.Memory
import Rv32im.Model.IFetch
import Rv32im.Model.Pipeline

namespace Rv32im

/-! ## State -/

structure CpuConfig where
  memorySize : ℕ := 1024 * 1024
  resetPc : BitVec 32 := 0
  maxInstructions : ℕ := 10000000
  icache : CacheConfig := {}
  dcache : CacheConfig := {}
deriving DecidableEq, Repr

structure RetireEvent where
  cycle : ℕ := 0
  retired : ℕ := 0
  pc : BitVec 32 := 0
  insn : BitVec 32 := 0
  rd : ℕ := 0
  wdata : BitVec 32 := 0
  regWrite : Bool := false
  memAddr : BitVec 32 := 0
  memRead : Bool := false
  memWrite : Bool := false
deriving DecidableEq, Repr

structure PerformanceStats where
  cycles : ℕ := 0
  retired : ℕ := 0
  alu : ℕ := 0
  branches : ℕ := 0
  branchesTaken : ℕ := 0
  loads : ℕ := 0
  stores : ℕ := 0
  mulDiv : ℕ := 0
  jumps : ℕ := 0
  baseInstructionCycles : ℕ := 0
  pipelineFillDrain : ℕ := 0
  stallLoadUse : ℕ := 0
  stallBranchRedirect : ℕ := 0
  stallJumpRedirect : ℕ := 0
  stallDivider : ℕ := 0
  stallIcache : ℕ := 0
  stallDcache : ℕ := 0
  stallCacheOverlap : ℕ := 0
  icachePipelineHoldReplays : ℕ := 0
  dcacheIfstallReplays : ℕ := 0
  icacheAccesses : ℕ := 0
  icacheHits : ℕ := 0
  icacheMisses : ℕ := 0
  dcacheAccesses : ℕ := 0
  dcacheHits : ℕ := 0
  dcacheMisses : ℕ := 0
  dcacheWritebacks : ℕ := 0
  axiReadTransactions : ℕ := 0
  axiWriteTransactions : ℕ := 0
deriving DecidableEq, Repr

abbrev Regs := Fin 32 → BitVec 32

structure CpuModel (cfg : CpuConfig) where
  instructionMemory : Memory
  dataMemory : Memory
  regs : Regs := fun _ => 0
  pc : BitVec 32
  halted : Bool := false
  cacheOverlapCycles : ℕ := 0
  dcacheIfstallReplays : ℕ := 0
  stats : PerformanceStats := {}
  timing : PipelineTimingModel {} := {}
  icache : DirectMappedCacheModel cfg.icache
  dcache : DirectMappedCacheModel cfg.dcache
  ifetch : IFetchStreamModel {} := {}
  trace : List RetireEvent := []
  dcacheOutcomes : List CacheAccessResult := []

abbrev StepM (cfg : CpuConfig) := Exec Exn (CpuModel cfg)

/-! ## Functional execution -/

def illegal {α : Type} (pc insn : BitVec 32) (reason : String) : Except Exn α := .error (.illegal pc insn reason)

/-- whether a conditional branch is taken; `none` for an illegal `funct3` -/
def branchTake (funct3 : ℕ) (a b : BitVec 32) : Option Bool :=
  match funct3 with
  | 0x0 => some (a = b)
  | 0x1 => some (a ≠ b)
  | 0x4 => some (asI32 a < asI32 b)
  | 0x5 => some (asI32 a ≥ asI32 b)
  | 0x6 => some (a < b)
  | 0x7 => some (a ≥ b)
  | _ => none

def loadValue (m : Memory) (pc insn addr : BitVec 32) : Except Exn (BitVec 32) :=
  match funct3 insn with
  | 0x0 => do return signExtend ((← m.read8 addr).setWidth 32) 8
  | 0x1 => do return signExtend ((← m.read16 addr).setWidth 32) 16
  | 0x2 => m.read32 addr
  | 0x4 => do return (← m.read8 addr).setWidth 32
  | 0x5 => do return (← m.read16 addr).setWidth 32
  | _ => illegal pc insn "load funct3"

def storeValue (m : Memory) (pc insn addr b : BitVec 32) : Except Exn Memory :=
  match funct3 insn with
  | 0x0 => m.write8 addr (b.setWidth 8)
  | 0x1 => m.write16 addr (b.setWidth 16)
  | 0x2 => m.write32 addr b
  | _ => illegal pc insn "store funct3"

def opImmValue (pc insn a : BitVec 32) : Except Exn (BitVec 32) :=
  match funct3 insn with
  | 0x0 => .ok (a + immI insn)
  | 0x2 => .ok (if asI32 a < asI32 (immI insn) then 1 else 0)
  | 0x3 => .ok (if a < immI insn then 1 else 0)
  | 0x4 => .ok (a ^^^ immI insn)
  | 0x6 => .ok (a ||| immI insn)
  | 0x7 => .ok (a &&& immI insn)
  | 0x1 => if funct7 insn ≠ 0x00 then illegal pc insn "SLLI funct7" else .ok (a <<< ((rs2 insn).val &&& 0x1f))
  | 0x5 =>
    if funct7 insn = 0x00 then .ok (a >>> ((rs2 insn).val &&& 0x1f))
    else if funct7 insn = 0x20 then .ok (a.sshiftRight ((rs2 insn).val &&& 0x1f))
    else illegal pc insn "SRLI/SRAI funct7"
  | _ => illegal pc insn "OP-IMM funct3"

/-- the M extension; the products are exact in 64 bits -/
def mulDivValue (pc insn a b : BitVec 32) : Except Exn (BitVec 32) :=
  match funct3 insn with
  | 0x0 => .ok (BitVec.ofInt 32 (asI32 a * asI32 b))
  | 0x1 => .ok (BitVec.ofInt 32 ((asI32 a * asI32 b) >>> (32 : ℕ)))
  | 0x2 => .ok (BitVec.ofInt 32 ((asI32 a * (b.toNat : ℤ)) >>> (32 : ℕ)))
  | 0x3 => .ok (BitVec.ofNat 32 ((a.toNat * b.toNat) >>> 32))
  | 0x4 =>
    if b = 0 then .ok 0xffffffff
    else if a = 0x80000000 ∧ b = 0xffffffff then .ok 0x80000000
    else .ok (BitVec.ofInt 32 ((asI32 a).tdiv (asI32 b)))
  | 0x5 => .ok (if b = 0 then 0xffffffff else a / b)
  | 0x6 =>
    if b = 0 then .ok a
    else if a = 0x80000000 ∧ b = 0xffffffff then .ok 0
    else .ok (BitVec.ofInt 32 ((asI32 a).tmod (asI32 b)))
  | 0x7 => .ok (if b = 0 then a else a % b)
  | _ => illegal pc insn "M-extension funct3"

def opValue (pc insn a b : BitVec 32) : Except Exn (BitVec 32) :=
  match funct3 insn with
  | 0x0 =>
    if funct7 insn = 0x00 then .ok (a + b)
    else if funct7 insn = 0x20 then .ok (a - b)
    else illegal pc insn "ADD/SUB funct7"
  | 0x1 => if funct7 insn ≠ 0x00 then illegal pc insn "SLL funct7" else .ok (a <<< (b &&& 0x1f).toNat)
  | 0x2 =>
    if funct7 insn ≠ 0x00 then illegal pc insn "SLT funct7" else .ok (if asI32 a < asI32 b then 1 else 0)
  | 0x3 => if funct7 insn ≠ 0x00 then illegal pc insn "SLTU funct7" else .ok (if a < b then 1 else 0)
  | 0x4 => if funct7 insn ≠ 0x00 then illegal pc insn "XOR funct7" else .ok (a ^^^ b)
  | 0x5 =>
    if funct7 insn = 0x00 then .ok (a >>> (b &&& 0x1f).toNat)
    else if funct7 insn = 0x20 then .ok (a.sshiftRight (b &&& 0x1f).toNat)
    else illegal pc insn "SRL/SRA funct7"
  | 0x6 => if funct7 insn ≠ 0x00 then illegal pc insn "OR funct7" else .ok (a ||| b)
  | 0x7 => if funct7 insn ≠ 0x00 then illegal pc insn "AND funct7" else .ok (a &&& b)
  | _ => illegal pc insn "OP funct3"

/-! ## Construction and reset -/

namespace CpuModel

variable {cfg : CpuConfig}

def construct (cfg : CpuConfig) : Except Exn (CpuModel cfg) := do
  let icache ← DirectMappedCacheModel.configure cfg.icache
  let dcache ← DirectMappedCacheModel.configure cfg.dcache
  return { instructionMemory := Memory.zeros cfg.memorySize, dataMemory := Memory.zeros cfg.memorySize
           pc := cfg.resetPc, icache := icache, dcache := dcache }

def reset (s : CpuModel cfg) (pc : BitVec 32) : CpuModel cfg :=
  { s with
    regs := fun _ => 0
    pc := pc
    halted := false
    cacheOverlapCycles := 0
    dcacheIfstallReplays := 0
    stats := {}
    timing := s.timing.reset
    icache := s.icache.reset
    dcache := s.dcache.reset
    ifetch := s.ifetch.reset pc
    dcacheOutcomes := [] }

/-- what `load_program` and `load_data` leave in the memories -/
def withImages (s : CpuModel cfg) (program data : ℕ → BitVec 8) : CpuModel cfg :=
  { s with
    instructionMemory := Memory.ofImage cfg.memorySize program
    dataMemory := Memory.ofImage cfg.memorySize data }

/-! ## Look-ahead -/

/-- the redirect target of the instruction at `nextPc`, if it is a jump or a branch that the registers take -/
def sequentialNextRedirectTarget (s : CpuModel cfg) (nextPc : BitVec 32) : Except Exn (Option (BitVec 32)) :=
  if nextPc &&& 3 ≠ 0 then .ok none
  else do
    let insn ← s.instructionMemory.read32 nextPc
    match opcode insn with
    | 0x6f => return some (nextPc + immJ insn)
    | 0x67 =>
      if funct3 insn = 0 then return some ((s.regs (rs1 insn) + immI insn) &&& ~~~1) else return none
    | 0x63 =>
      let a := s.regs (rs1 insn)
      let b := s.regs (rs2 insn)
      match funct3 insn with
      | 0x0 => return if a = b then some (nextPc + immB insn) else none
      | 0x1 => return if a ≠ b then some (nextPc + immB insn) else none
      | 0x4 => return if asI32 a < asI32 b then some (nextPc + immB insn) else none
      | 0x5 => return if asI32 a ≥ asI32 b then some (nextPc + immB insn) else none
      | 0x6 => return if a < b then some (nextPc + immB insn) else none
      | 0x7 => return if a ≥ b then some (nextPc + immB insn) else none
      | _ => return none
    | _ => return none

def cacheOverlapCredit (cfg : CpuConfig) (dcacheStallCycles : BitVec 32) : BitVec 32 :=
  if !cfg.icache.enabled || !cfg.dcache.enabled || dcacheStallCycles ≤ 1 then 0
  else
    let dcacheTail := dcacheStallCycles - 1
    let icacheRefill := DirectMappedCacheModel.cleanMissPenalty cfg.icache
    if dcacheTail < icacheRefill then dcacheTail else icacheRefill

/-! ## One step -/

/-- the local variables of `step` -/
structure Locals where
  oldPc : BitVec 32
  nextPc : BitVec 32
  event : RetireEvent
  cacheStalls : BitVec 32
  branchTaken : Bool := false
  jump : Bool := false
  terminatingSystem : Bool := false

def Locals.start (pc insn stalls : BitVec 32) : Locals :=
  { oldPc := pc, nextPc := pc + 4, event := { pc := pc, insn := insn }, cacheStalls := stalls }

/-- a front-end call on the model's fetch stream and I-cache -/
def front {α : Type} (m : FetchM {} cfg.icache α) : StepM cfg α :=
  Exec.zoom (fun s => ⟨s.ifetch, s.icache⟩) (fun f s => { s with ifetch := f.ifetch, icache := f.icache }) m

def dcacheAccess (addr : BitVec 32) (isWrite : Bool) : StepM cfg CacheAccessResult := fun s =>
  let (result, dcache) := s.dcache.access addr isWrite
  .ok result { s with dcache := dcache, dcacheOutcomes := s.dcacheOutcomes ++ [result] }

/-- the repeated access to a line that was just filled -/
def dcacheReplay (addr : BitVec 32) : StepM cfg CacheAccessResult := fun s =>
  let (result, dcache) := s.dcache.access addr true
  .ok result { s with dcache := dcache }

def bump (f : PerformanceStats → PerformanceStats) : StepM cfg Unit :=
  Exec.modify fun s => { s with stats := f s.stats }

def writeReg (rd : Fin 32) (value : BitVec 32) (event : RetireEvent) : StepM cfg RetireEvent := do
  Exec.modify fun s => { s with regs := if rd ≠ 0 then Function.update s.regs rd value else s.regs }
  return { event with rd := rd, wdata := value, regWrite := rd ≠ 0 }

def execJump (insn target : BitVec 32) (l : Locals) : StepM cfg Locals := do
  let event ← writeReg (rd insn) (l.oldPc + 4) l.event
  bump fun st => { st with jumps := st.jumps + 1 }
  return { l with event := event, nextPc := target, jump := true }

def execBranch (insn : BitVec 32) (l : Locals) : StepM cfg Locals := do
  let s ← Exec.get
  match branchTake (funct3 insn) (s.regs (rs1 insn)) (s.regs (rs2 insn)) with
  | none => Exec.lift (illegal s.pc insn "branch funct3")
  | some false => do
    bump fun st => { st with branches := st.branches + 1 }
    return l
  | some true => do
    bump fun st => { st with branches := st.branches + 1, branchesTaken := st.branchesTaken + 1 }
    return { l with branchTaken := true, nextPc := l.oldPc + immB insn }

/-- the D-cache access of a load and the fetches behind its stall, added to `stalls` -/
def loadStalls (addr oldPc stalls : BitVec 32) : StepM cfg (BitVec 32) := do
  let access ← dcacheAccess addr false
  let ifetchStalls ← front (FrontEnd.onDcacheStall oldPc access.stallCycles)
  return stalls + ifetchStalls + access.stallCycles

def execLoad (insn : BitVec 32) (l : Locals) : StepM cfg Locals := do
  let s ← Exec.get
  let addr := s.regs (rs1 insn) + immI insn
  let value ← Exec.lift (loadValue s.dataMemory s.pc insn addr)
  let event := { l.event with memAddr := addr, memRead := true }
  let stalls ← loadStalls addr l.oldPc l.cacheStalls
  let event ← writeReg (rd insn) value event
  bump fun st => { st with loads := st.loads + 1 }
  return { l with event := event, cacheStalls := stalls }

/-- the overlap rule of a store that misses in the D-cache while the fetch stream misses too -/
def overlapCredit (addr oldPc dcacheStall ifetchStalls : BitVec 32) : StepM cfg (BitVec 32) := do
  let s ← Exec.get
  if dcacheStall ≠ 0 ∧ ifetchStalls ≠ 0 then do
    let target ← Exec.lift (s.sequentialNextRedirectTarget (oldPc + 4))
    match target with
    | none => return 0
    | some redirectTarget =>
      if s.icache.wouldHit redirectTarget then return 0
      else do
        let credit := cacheOverlapCredit cfg dcacheStall
        Exec.modify fun s => { s with cacheOverlapCycles := s.cacheOverlapCycles + credit.toNat }
        if credit ≠ 0 then do
          let replay ← dcacheReplay addr
          Exec.throwIf (replay.hit = false ∨ replay.stallCycles ≠ 0) .replayMiss
          Exec.modify fun s => { s with dcacheIfstallReplays := s.dcacheIfstallReplays + 1 }
          return credit
        else return credit
  else return 0

/-- the D-cache access of a store and the fetches behind its stall, less the overlap credit, added to `stalls` -/
def storeStalls (addr oldPc stalls : BitVec 32) : StepM cfg (BitVec 32) := do
  let access ← dcacheAccess addr true
  let ifetchStalls ← front (FrontEnd.onDcacheStall oldPc access.stallCycles)
  let credit ← overlapCredit addr oldPc access.stallCycles ifetchStalls
  return stalls + ifetchStalls + access.stallCycles - credit

def execStore (insn : BitVec 32) (l : Locals) : StepM cfg Locals := do
  let s ← Exec.get
  let addr := s.regs (rs1 insn) + immS insn
  let dataMemory ← Exec.lift (storeValue s.dataMemory s.pc insn addr (s.regs (rs2 insn)))
  Exec.modify fun s => { s with dataMemory := dataMemory }
  let event := { l.event with memAddr := addr, memWrite := true }
  let stalls ← storeStalls addr l.oldPc l.cacheStalls
  bump fun st => { st with stores := st.stores + 1 }
  return { l with event := event, cacheStalls := stalls }

def execOp (insn : BitVec 32) (l : Locals) : StepM cfg Locals := do
  let s ← Exec.get
  let a := s.regs (rs1 insn)
  let b := s.regs (rs2 insn)
  if funct7 insn = 0x01 then do
    -- the counter moves before the encoding is checked, here and below
    bump fun st => { st with mulDiv := st.mulDiv + 1 }
    let value ← Exec.lift (mulDivValue s.pc insn a b)
    let event ← writeReg (rd insn) value l.event
    return { l with event := event }
  else do
    bump fun st => { st with alu := st.alu + 1 }
    let value ← Exec.lift (opValue s.pc insn a b)
    let event ← writeReg (rd insn) value l.event
    return { l with event := event }

/-- write a register and count an ALU instruction -/
def execAlu (insn value : BitVec 32) (l : Locals) : StepM cfg Locals := do
  let event ← writeReg (rd insn) value l.event
  bump fun st => { st with alu := st.alu + 1 }
  return { l with event := event }

def execJalr (insn : BitVec 32) (l : Locals) : StepM cfg Locals := do
  let s ← Exec.get
  if funct3 insn ≠ 0 then Exec.lift (illegal s.pc insn "JALR funct3")
  else execJump insn ((s.regs (rs1 insn) + immI insn) &&& ~~~1) l

def execOpImm (insn : BitVec 32) (l : Locals) : StepM cfg Locals := do
  let s ← Exec.get
  let value ← Exec.lift (opImmValue s.pc insn (s.regs (rs1 insn)))
  execAlu insn value l

def execFence (l : Locals) : StepM cfg Locals := do
  bump fun st => { st with alu := st.alu + 1 }
  return l

def execSystem (insn : BitVec 32) (l : Locals) : StepM cfg Locals := do
  let s ← Exec.get
  if insn = 0x00000073 ∨ insn = 0x00100073 then do
    Exec.modify fun s => { s with halted := true }
    return { l with terminatingSystem := true }
  else Exec.lift (illegal s.pc insn "CSR/system instruction not implemented in Milestone 1")

/-- the opcode switch of `step` -/
def execute (insn : BitVec 32) (l : Locals) : StepM cfg Locals := fun s =>
  match opcode insn with
  | 0x37 => execAlu insn (immU insn) l s
  | 0x17 => execAlu insn (l.oldPc + immU insn) l s
  | 0x6f => execJump insn (l.oldPc + immJ insn) l s
  | 0x67 => execJalr insn l s
  | 0x63 => execBranch insn l s
  | 0x03 => execLoad insn l s
  | 0x23 => execStore insn l s
  | 0x13 => execOpImm insn l s
  | 0x33 => execOp insn l s
  | 0x0f => execFence l s
  | 0x73 => execSystem insn l s
  | _ => Exec.lift (illegal s.pc insn "unknown opcode") s

/-- add the stalls of a front-end call when its condition holds -/
def addStalls (c : Bool) (stalls : BitVec 32) (m : FetchM {} cfg.icache (BitVec 32)) : StepM cfg (BitVec 32) :=
  if c then do
    let more ← front m
    return stalls + more
  else return stalls

/-- the redirect and drain requests behind the executed instruction -/
def redirects (l : Locals) : StepM cfg (BitVec 32) := do
  let stalls ← addStalls l.branchTaken l.cacheStalls (FrontEnd.onTakenBranch l.oldPc l.nextPc)
  let stalls ← addStalls l.jump stalls (FrontEnd.onJumpRedirect l.oldPc l.nextPc)
  addStalls l.terminatingSystem stalls (FrontEnd.onSystemDrain l.oldPc)

/-- the hold cycles that repeat a resident fetch, less those already in the overlap -/
def holdReplays (cfg : CpuConfig) (holds overlap : ℕ) : ℕ :=
  if cfg.icache.enabled then
    let duplicate := if overlap < holds then overlap else holds
    holds - duplicate
  else 0

/-- the reported counters, copied from the timing model and the caches -/
def syncStats (s : CpuModel cfg) : PerformanceStats :=
  let t := s.timing.stats
  let i := s.icache.stats
  let d := s.dcache.stats
  let replays := holdReplays cfg (t.loadUseStalls + t.dividerStalls) s.cacheOverlapCycles
  { s.stats with
    retired := t.retired
    cycles := t.totalCycles
    baseInstructionCycles := t.baseInstructionCycles
    pipelineFillDrain := t.pipelineFillDrain
    stallLoadUse := t.loadUseStalls
    stallBranchRedirect := t.branchRedirectStalls
    stallJumpRedirect := t.jumpRedirectStalls
    stallDivider := t.dividerStalls
    stallIcache := i.stallCycles
    stallDcache := d.stallCycles
    stallCacheOverlap := s.cacheOverlapCycles
    icachePipelineHoldReplays := replays
    icacheAccesses := i.accesses + replays
    icacheHits := i.hits + replays
    icacheMisses := i.misses
    dcacheIfstallReplays := s.dcacheIfstallReplays
    dcacheAccesses := d.accesses
    dcacheHits := d.hits
    dcacheMisses := d.misses
    dcacheWritebacks := d.writebacks
    axiReadTransactions := i.readTransactions + d.readTransactions
    axiWriteTransactions := d.writeTransactions }

/-- retire the executed instruction: charge the pipeline, report the counters, emit the event -/
def retire (insn stalls : BitVec 32) (l : Locals) : StepM cfg Bool := fun s =>
  let (result, timing) := (s.timing.addExternalStalls stalls).retire insn l.branchTaken
  let s := { s with timing := timing }
  let stats := s.syncStats
  let event := { l.event with cycle := result.retireCycle, retired := stats.retired }
  .ok (!s.halted) { s with stats := stats, trace := s.trace ++ [event] }

/-- the part of `step` behind the fetch of the instruction -/
def afterFetch (oldPc insn stalls : BitVec 32) : StepM cfg Bool := do
  let l ← execute insn (Locals.start oldPc insn stalls)
  Exec.modify fun s => { s with regs := Function.update s.regs 0 0, pc := l.nextPc }
  let stalls ← redirects l
  retire insn stalls l

def step : StepM cfg Bool := do
  let s ← Exec.get
  if s.halted then return false
  else do
    Exec.throwIf (s.stats.retired ≥ cfg.maxInstructions) .maxInstructions
    Exec.throwIf (s.pc &&& 3 ≠ 0) .misalignedFetch
    let insn ← Exec.lift (s.instructionMemory.read32 s.pc)
    let stalls ← front (FrontEnd.ensureThrough s.pc)
    afterFetch s.pc insn stalls

/-! ## Boot -/

end CpuModel

/-- both cache configurations are accepted -/
structure CpuConfig.Accepted (cfg : CpuConfig) : Prop where
  icache : cfg.icache.Accepted
  dcache : cfg.dcache.Accepted

/-- construct the model, load both images and reset it to `pc` -/
def boot (cfg : CpuConfig) (h : cfg.Accepted) (program data : ℕ → BitVec 8) (pc : BitVec 32) : CpuModel cfg :=
  (CpuModel.withImages
    { instructionMemory := Memory.zeros cfg.memorySize, dataMemory := Memory.zeros cfg.memorySize, pc := cfg.resetPc
      icache := .fresh h.icache, dcache := .fresh h.dcache } program data).reset pc

theorem DirectMappedCacheModel.configure_of_accepted {config : CacheConfig} (h : config.Accepted) :
    configure config = .ok (.fresh h) := by
  simp [configure, h.lines, h.lineBytes]

/-- the constructor succeeds on every accepted configuration, and `boot` continues from what it builds -/
theorem boot_eq (cfg : CpuConfig) (h : cfg.Accepted) (program data : ℕ → BitVec 8) (pc : BitVec 32) :
    (CpuModel.construct cfg).map (fun s => (s.withImages program data).reset pc) =
      .ok (boot cfg h program data pc) := by
  simp only [CpuModel.construct, DirectMappedCacheModel.configure_of_accepted h.icache,
    DirectMappedCacheModel.configure_of_accepted h.dcache]
  rfl

/-! ## A directed workload -/

/-- the bytes of a program of words from address 0 -/
def wordImage (words : List (BitVec 32)) (i : ℕ) : BitVec 8 :=
  ((words.getD (i / 4) 0) >>> (8 * (i % 4))).setWidth 8

/-- `workloads/milestone3/cache_test.hex`: loads and stores around two conflicting words -/
def cacheTest : List (BitVec 32) :=
  [0x02a00113, 0x00202023, 0x00002183, 0x01000213, 0x06300293, 0x00522023, 0x00022303, 0x00002383, 0x00618433,
    0x000384b3, 0x00000073]

def noCaches : CpuConfig := { memorySize := 256 }

/-- two caches of four lines, as the RTL testbench has them -/
def splitCaches : CpuConfig where
  memorySize := 256
  icache := { enabled := true, lines := 4 }
  dcache := { enabled := true, lines := 4, writeBack := true }

theorem noCaches_accepted : noCaches.Accepted := ⟨⟨by decide, rfl⟩, ⟨by decide, rfl⟩⟩

theorem splitCaches_accepted : splitCaches.Accepted := ⟨⟨by decide, rfl⟩, ⟨by decide, rfl⟩⟩

-- the `split_cache` cycles of `docs/MILESTONE3B_IFETCH.md`
example : (Exec.iter CpuModel.step 11 (boot splitCaches splitCaches_accepted (wordImage cacheTest) 0 0)).map
    (fun s => (s.halted, s.stats.cycles)) = some (true, 139) := by decide +kernel

end Rv32im
