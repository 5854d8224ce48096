/-
The two halves of a step: what an instruction does to the architectural state, and what the caches and the fetch
stream charge for it.

- `Effect`, `effect`: the functional result of an instruction word. It reads the registers, the pc and data memory
  only, and fails with the exception the switch throws.
- `Caches`, `Caches.charge`: the cache side of the model, and the calls one instruction makes on it. They read the
  instruction's kind, its pc and next pc and the look-ahead result only.
- `look_error`, `look_of_effect`: the look-ahead fails only where its fetch does, and is the redirect of the next effect.

`Step/Factor.lean` shows that `CpuModel.step` is exactly these two halves put together.
-/
import Rv32im.Model.Cpu

namespace Rv32im

/-! ## The architectural effect -/

/-- what an instruction is to the counters and to the timing -/
inductive Kind where
  | alu
  | mulDiv
  | load (addr : BitVec 32)
  | store (addr : BitVec 32)
  | branch (taken : Bool)
  | jump
  | system
deriving DecidableEq, Repr

namespace Kind

/-- the data access of an instruction: its address, and whether it writes -/
def mem : Kind → Option (BitVec 32 × Bool)
  | .load a => some (a, false)
  | .store a => some (a, true)
  | _ => none

/-- a taken branch or a jump -/
def jumps : Kind → Bool
  | .branch taken => taken
  | .jump => true
  | _ => false

/-- a store -/
def stores : Kind → Bool
  | .store _ => true
  | _ => false

/-- the instruction fetches two words behind itself: a taken branch, a jump or a SYSTEM instruction -/
def redirects (k : Kind) : Bool := k.jumps || k = .system

/-- 1 if the data access of an instruction satisfies `p` -/
def tally (k : Kind) (p : BitVec 32 → Bool) : ℕ :=
  match k.mem with
  | some m => if p m.1 then 1 else 0
  | none => 0

theorem mem_of_redirects {k : Kind} (h : k.redirects = true) : k.mem = none := by
  cases k <;> first | rfl | cases h

end Kind

/-- one more instruction of a kind -/
def Kind.count (k : Kind) (st : PerformanceStats) : PerformanceStats :=
  match k with
  | .alu => { st with alu := st.alu + 1 }
  | .mulDiv => { st with mulDiv := st.mulDiv + 1 }
  | .load _ => { st with loads := st.loads + 1 }
  | .store _ => { st with stores := st.stores + 1 }
  | .branch false => { st with branches := st.branches + 1 }
  | .branch true => { st with branches := st.branches + 1, branchesTaken := st.branchesTaken + 1 }
  | .jump => { st with jumps := st.jumps + 1 }
  | .system => st

/-- the functional result of an instruction: its kind, the next pc, the register write and data memory after it -/
structure Effect where
  kind : Kind
  nextPc : BitVec 32
  wr : Option (Fin 32 × BitVec 32)
  mem : Memory

namespace Effect

/-- the registers after the write and after `regs_[0] = 0` -/
def regs (e : Effect) (r : Regs) : Regs :=
  match e.wr with
  | none => r
  | some (rd, v) => if rd ≠ 0 then Function.update r rd v else r

/-- the event of the instruction, without its cycle and retirement number -/
def event (e : Effect) (pc insn : BitVec 32) : RetireEvent :=
  let ev : RetireEvent := { pc := pc, insn := insn }
  let ev := match e.kind with
    | .load addr => { ev with memAddr := addr, memRead := true }
    | .store addr => { ev with memAddr := addr, memWrite := true }
    | _ => ev
  match e.wr with
  | none => ev
  | some (rd, v) => { ev with rd := rd, wdata := v, regWrite := rd ≠ 0 }

/-- the locals of `step` after the switch -/
def locals (e : Effect) (pc insn stalls : BitVec 32) : CpuModel.Locals where
  oldPc := pc
  nextPc := e.nextPc
  event := e.event pc insn
  cacheStalls := stalls
  branchTaken := e.kind = .branch true
  jump := e.kind = .jump
  terminatingSystem := e.kind = .system

@[simp] theorem locals_nextPc (e : Effect) (pc insn stalls : BitVec 32) :
    (e.locals pc insn stalls).nextPc = e.nextPc := rfl

end Effect

/-- the functional half of the opcode switch -/
def effect (m : Memory) (r : Regs) (pc insn : BitVec 32) : Except Exn Effect :=
  let a := r (rs1 insn)
  let b := r (rs2 insn)
  let write (kind : Kind) (v : BitVec 32) : Effect := ⟨kind, pc + 4, some (rd insn, v), m⟩
  match opcode insn with
  | 0x37 => .ok (write .alu (immU insn))
  | 0x17 => .ok (write .alu (pc + immU insn))
  | 0x6f => .ok ⟨.jump, pc + immJ insn, some (rd insn, pc + 4), m⟩
  | 0x67 =>
    if funct3 insn ≠ 0 then illegal pc insn "JALR funct3"
    else .ok ⟨.jump, (a + immI insn) &&& ~~~1, some (rd insn, pc + 4), m⟩
  | 0x63 =>
    match branchTake (funct3 insn) a b with
    | none => illegal pc insn "branch funct3"
    | some taken => .ok ⟨.branch taken, if taken then pc + immB insn else pc + 4, none, m⟩
  | 0x03 => (loadValue m pc insn (a + immI insn)).map (write (.load (a + immI insn)))
  | 0x23 => (storeValue m pc insn (a + immS insn) b).map fun m' => ⟨.store (a + immS insn), pc + 4, none, m'⟩
  | 0x13 => (opImmValue pc insn a).map (write .alu)
  | 0x33 =>
    if funct7 insn = 0x01 then (mulDivValue pc insn a b).map (write .mulDiv)
    else (opValue pc insn a b).map (write .alu)
  | 0x0f => .ok ⟨.alu, pc + 4, none, m⟩
  | 0x73 =>
    if insn = 0x00000073 ∨ insn = 0x00100073 then .ok ⟨.system, pc + 4, none, m⟩
    else illegal pc insn "CSR/system instruction not implemented in Milestone 1"
  | _ => illegal pc insn "unknown opcode"

/-- what an effect says about the encoding it came from, and about its next pc -/
structure Effect.Fits (e : Effect) (pc insn : BitVec 32) : Prop where
  sequential : e.kind.jumps = false → e.nextPc = pc + 4
  isBranch : (PipelineTimingModel.decode insn).isBranch = true ↔ ∃ taken, e.kind = .branch taken
  isJump : (PipelineTimingModel.decode insn).isJump = true ↔ e.kind = .jump
  store : ∀ a, e.kind = .store a → e.wr = none

theorem map_ok {α : Type} {x : Except Exn α} {f : α → Effect} {e : Effect} (h : x.map f = .ok e) :
    ∃ v, x = .ok v ∧ f v = e := by
  cases x with
  | error y => cases h
  | ok v => exact ⟨v, rfl, Except.ok.inj h⟩

theorem effect_fits {m : Memory} {r : Regs} {pc insn : BitVec 32} {e : Effect}
    (h : effect m r pc insn = .ok e) : e.Fits pc insn := by
  unfold effect at h
  split at h <;> rename_i hop
  · cases h
    constructor <;> simp [PipelineTimingModel.decode, hop]
  · cases h
    constructor <;> simp [PipelineTimingModel.decode, hop]
  · cases h
    constructor <;> simp [PipelineTimingModel.decode, hop, Kind.jumps]
  · split_ifs at h
    · cases h
    · cases h
      constructor <;> simp [PipelineTimingModel.decode, hop, Kind.jumps]
  · simp only at h
    cases hb : branchTake (funct3 insn) (r (rs1 insn)) (r (rs2 insn)) with
    | none =>
      rw [hb] at h
      cases h
    | some taken =>
      rw [hb] at h
      cases h
      constructor <;> simp +contextual [PipelineTimingModel.decode, hop, Kind.jumps]
  · obtain ⟨v, -, rfl⟩ := map_ok h
    constructor <;> simp [PipelineTimingModel.decode, hop]
  · obtain ⟨v, -, rfl⟩ := map_ok h
    constructor <;> simp [PipelineTimingModel.decode, hop]
  · obtain ⟨v, -, rfl⟩ := map_ok h
    constructor <;> simp [PipelineTimingModel.decode, hop]
  · split_ifs at h
    · obtain ⟨v, -, rfl⟩ := map_ok h
      constructor <;> simp [PipelineTimingModel.decode, hop]
    · obtain ⟨v, -, rfl⟩ := map_ok h
      constructor <;> simp [PipelineTimingModel.decode, hop]
  · cases h
    constructor <;> simp [PipelineTimingModel.decode, hop]
  · split_ifs at h
    · cases h
      constructor <;> simp [PipelineTimingModel.decode, hop]
    · cases h
  · cases h

theorem storeValue_size {m m' : Memory} {pc insn addr b : BitVec 32} (h : storeValue m pc insn addr b = .ok m') :
    m'.size = m.size := by
  unfold storeValue at h
  split at h
  · exact Memory.write8_size h
  · exact Memory.write16_size h
  · exact Memory.write32_size h
  · cases h

/-- data memory keeps its size, and only a store changes its bytes -/
theorem effect_mem {m : Memory} {r : Regs} {pc insn : BitVec 32} {e : Effect} (h : effect m r pc insn = .ok e) :
    e.mem.size = m.size ∧ (e.kind.stores = false → e.mem = m) := by
  unfold effect at h
  split at h
  · cases h
    exact ⟨rfl, fun _ => rfl⟩
  · cases h
    exact ⟨rfl, fun _ => rfl⟩
  · cases h
    exact ⟨rfl, fun _ => rfl⟩
  · split_ifs at h
    · cases h
    · cases h
      exact ⟨rfl, fun _ => rfl⟩
  · simp only at h
    split at h
    · cases h
    · cases h
      exact ⟨rfl, fun _ => rfl⟩
  · obtain ⟨v, -, rfl⟩ := map_ok h
    exact ⟨rfl, fun _ => rfl⟩
  · obtain ⟨m', hs, rfl⟩ := map_ok h
    exact ⟨storeValue_size hs, fun hk => by cases hk⟩
  · obtain ⟨v, -, rfl⟩ := map_ok h
    exact ⟨rfl, fun _ => rfl⟩
  · split_ifs at h
    · obtain ⟨v, -, rfl⟩ := map_ok h
      exact ⟨rfl, fun _ => rfl⟩
    · obtain ⟨v, -, rfl⟩ := map_ok h
      exact ⟨rfl, fun _ => rfl⟩
  · cases h
    exact ⟨rfl, fun _ => rfl⟩
  · split_ifs at h
    · cases h
      exact ⟨rfl, fun _ => rfl⟩
    · cases h
  · cases h

/-! ## The cache side -/

/-- the caches, the fetch stream and the overlap counters -/
structure Caches (cfg : CpuConfig) where
  icache : DirectMappedCacheModel cfg.icache
  dcache : DirectMappedCacheModel cfg.dcache
  ifetch : IFetchStreamModel {}
  overlap : ℕ
  replays : ℕ
  outcomes : List CacheAccessResult

namespace Caches

variable {cfg : CpuConfig}

abbrev M (cfg : CpuConfig) := Exec Exn (Caches cfg)

def frontEnd (c : Caches cfg) : FrontEnd {} cfg.icache := ⟨c.ifetch, c.icache⟩

def putFront (f : FrontEnd {} cfg.icache) (c : Caches cfg) : Caches cfg :=
  { c with ifetch := f.ifetch, icache := f.icache }

def front {α : Type} (m : FetchM {} cfg.icache α) : M cfg α := Exec.zoom frontEnd putFront m

def access (addr : BitVec 32) (isWrite : Bool) : M cfg CacheAccessResult := fun c =>
  .ok (c.dcache.access addr isWrite).1
    { c with
      dcache := (c.dcache.access addr isWrite).2
      outcomes := c.outcomes ++ [(c.dcache.access addr isWrite).1] }

/-- the credit is granted, and the store is presented once more to the filled line -/
def grant (addr credit : BitVec 32) : M cfg (BitVec 32) := fun c =>
  if credit ≠ 0 then
    let replay := c.dcache.access addr true
    let c := { c with overlap := c.overlap + credit.toNat, dcache := replay.2 }
    if replay.1.hit = false ∨ replay.1.stallCycles ≠ 0 then .throw .replayMiss c
    else .ok credit { c with replays := c.replays + 1 }
  else .ok credit { c with overlap := c.overlap + credit.toNat }

/-- the overlap rule, given the look-ahead result -/
def credit (look : Except Exn (Option (BitVec 32))) (addr dcacheStall ifetchStalls : BitVec 32) : M cfg (BitVec 32) :=
  fun c =>
    if dcacheStall ≠ 0 ∧ ifetchStalls ≠ 0 then
      match look with
      | .error e => .throw e c
      | .ok none => .ok 0 c
      | .ok (some target) =>
        if c.icache.wouldHit target then .ok 0 c
        else grant addr (CpuModel.cacheOverlapCredit cfg dcacheStall) c
    else .ok 0 c

/-- the data-memory part of an instruction -/
def memory (k : Kind) (pc : BitVec 32) (look : Except Exn (Option (BitVec 32))) (stalls : BitVec 32) :
    M cfg (BitVec 32) :=
  match k with
  | .load addr => do
    let a ← access addr false
    let f ← front (FrontEnd.onDcacheStall pc a.stallCycles)
    return stalls + f + a.stallCycles
  | .store addr => do
    let a ← access addr true
    let f ← front (FrontEnd.onDcacheStall pc a.stallCycles)
    let x ← credit look addr a.stallCycles f
    return stalls + f + a.stallCycles - x
  | _ => return stalls

/-- the redirect or drain behind an instruction -/
def control (k : Kind) (pc nextPc stalls : BitVec 32) : M cfg (BitVec 32) :=
  match k with
  | .branch true => do
    let f ← front (FrontEnd.onTakenBranch pc nextPc)
    return stalls + f
  | .jump => do
    let f ← front (FrontEnd.onJumpRedirect pc nextPc)
    return stalls + f
  | .system => do
    let f ← front (FrontEnd.onSystemDrain pc)
    return stalls + f
  | _ => return stalls

/-- all the calls one instruction makes on the cache side -/
def charge (k : Kind) (pc nextPc : BitVec 32) (look : Except Exn (Option (BitVec 32))) : M cfg (BitVec 32) := do
  let stalls ← front (FrontEnd.ensureThrough pc)
  let stalls ← memory k pc look stalls
  control k pc nextPc stalls

end Caches

/-! ## The model from its two halves -/

namespace CpuModel

variable {cfg : CpuConfig}

def caches (s : CpuModel cfg) : Caches cfg :=
  ⟨s.icache, s.dcache, s.ifetch, s.cacheOverlapCycles, s.dcacheIfstallReplays, s.dcacheOutcomes⟩

def putCaches (c : Caches cfg) (s : CpuModel cfg) : CpuModel cfg :=
  { s with
    icache := c.icache, dcache := c.dcache, ifetch := c.ifetch
    cacheOverlapCycles := c.overlap, dcacheIfstallReplays := c.replays, dcacheOutcomes := c.outcomes }

@[simp] theorem caches_putCaches (c : Caches cfg) (s : CpuModel cfg) : (s.putCaches c).caches = c := rfl

/-- the look-ahead behind the instruction at the pc -/
def look (s : CpuModel cfg) : Except Exn (Option (BitVec 32)) := s.sequentialNextRedirectTarget (s.pc + 4)

/-- the look-ahead fails exactly where its fetch does -/
theorem redirectTarget_error {s : CpuModel cfg} {a : BitVec 32} {x : Exn} :
    s.sequentialNextRedirectTarget a = .error x ↔ a &&& 3 = 0 ∧ s.instructionMemory.read32 a = .error x := by
  unfold sequentialNextRedirectTarget
  split_ifs with ha
  · refine ⟨?_, ?_⟩
    · intro h
      cases h
    · intro ⟨h, _⟩
      exact absurd h ha
  · rw [ne_eq, not_not] at ha
    cases hf : s.instructionMemory.read32 a with
    | error y =>
      have hbind : ∀ f : BitVec 32 → Except Exn (Option (BitVec 32)), (do let insn ← Except.error y; f insn) =
          Except.error y := fun _ => rfl
      rw [hbind]
      refine ⟨?_, ?_⟩
      · intro h
        exact ⟨ha, congrArg Except.error (Except.error.inj h)⟩
      · intro ⟨_, h⟩
        exact congrArg Except.error (Except.error.inj h)
    | ok insn =>
      simp only [bind, Except.bind, pure, Except.pure, reduceCtorEq, and_false, iff_false]
      repeat' split
      all_goals
        intro h
        cases h

theorem look_error {s : CpuModel cfg} {a : BitVec 32} {x : Exn} (h : s.sequentialNextRedirectTarget a = .error x) :
    s.instructionMemory.read32 a = .error x :=
  (redirectTarget_error.1 h).2

/-- **The look-ahead is the effect behind it**: the target of a redirect, and nothing where none is taken. -/
theorem look_of_effect {s : CpuModel cfg} {a insn : BitVec 32} {e : Effect} (ha : a &&& 3 = 0)
    (hf : s.instructionMemory.read32 a = .ok insn) (he : effect s.dataMemory s.regs a insn = .ok e) :
    s.sequentialNextRedirectTarget a = .ok (if e.kind.jumps then some e.nextPc else none) := by
  unfold sequentialNextRedirectTarget
  rw [if_neg (not_not.2 ha), hf]
  simp only [bind, Except.bind, pure, Except.pure]
  split
  · rename_i hop
    simp only [effect, hop] at he
    cases he
    rfl
  · rename_i hop
    simp only [effect, hop] at he
    by_cases hf3 : funct3 insn = 0
    · rw [if_neg (not_not.2 hf3)] at he
      cases he
      rw [if_pos hf3]
      rfl
    · rw [if_pos hf3] at he
      cases he
  · rename_i hop
    simp only [effect, hop] at he
    -- the two switches over `funct3` agree
    generalize funct3 insn = f at he ⊢
    split <;> simp only [branchTake, Except.ok.injEq] at he ⊢ <;> first
      | (subst he; simp only [Kind.jumps, decide_eq_true_eq]; split_ifs <;> rfl)
      | skip
    cases he
  · rename_i h6f h67 h63
    have hjumps : e.kind.jumps = false := by
      have hfits := effect_fits he
      have hdecode : (PipelineTimingModel.decode insn).isBranch = false ∧
          (PipelineTimingModel.decode insn).isJump = false := by
        unfold PipelineTimingModel.decode
        split <;> first | contradiction | exact ⟨rfl, rfl⟩
      cases hk : e.kind with
      | branch taken =>
        have hbranch := hfits.isBranch.2 ⟨taken, hk⟩
        rw [hdecode.1] at hbranch
        cases hbranch
      | jump =>
        have hjump := hfits.isJump.2 hk
        rw [hdecode.2] at hjump
        cases hjump
      | _ => rfl
    rw [hjumps]
    rfl

/-- **The look-ahead foresees the redirect** that the registers imply. -/
theorem look_effect {s : CpuModel cfg} {a target insn : BitVec 32} {e : Effect}
    (h : s.sequentialNextRedirectTarget a = .ok (some target)) (hf : s.instructionMemory.read32 a = .ok insn)
    (he : effect s.dataMemory s.regs a insn = .ok e) : e.kind.jumps = true ∧ e.nextPc = target := by
  have ha : a &&& 3 = 0 := by
    by_contra ha
    rw [sequentialNextRedirectTarget, if_pos ha] at h
    cases h
  rw [look_of_effect ha hf he] at h
  split_ifs at h with hjumps
  · exact ⟨hjumps, Option.some.inj (Except.ok.inj h)⟩
  · cases h

/-- the state after the switch -/
def executed (s : CpuModel cfg) (e : Effect) (c : Caches cfg) : CpuModel cfg :=
  { s.putCaches c with
    dataMemory := e.mem, regs := e.regs s.regs, stats := e.kind.count s.stats
    halted := if e.kind = .system then true else s.halted }

@[simp] theorem executed_caches (s : CpuModel cfg) (e : Effect) (c : Caches cfg) (r : Regs) (pc : BitVec 32) :
    ({ s.executed e c with regs := r, pc := pc } : CpuModel cfg).caches = c := rfl

/-- the state after the whole step, with `stalls` charged to the pipeline -/
def retired (s : CpuModel cfg) (insn : BitVec 32) (e : Effect) (stalls : BitVec 32) (c : Caches cfg) : CpuModel cfg :=
  let result := (s.timing.addExternalStalls stalls).retire insn (e.kind = .branch true)
  let t := { s.executed e c with
    regs := Function.update (e.regs s.regs) 0 0, pc := e.nextPc, timing := result.2 }
  { t with
    stats := t.syncStats
    trace := s.trace ++ [{ e.event s.pc insn with cycle := result.1.retireCycle, retired := result.2.stats.retired }] }

end CpuModel

end Rv32im
