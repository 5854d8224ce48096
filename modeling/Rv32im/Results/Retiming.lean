/-
The timing of a run, from the rows of its trace.

A second simulator that has no program and no data memory. It reads the rows of a trace, keeps the registers that they
tell, and makes the same calls on the caches and on the pipeline. The look-ahead of a store reads the next row in place
of instruction memory. The cycles of the rows are not read.

- `effect_of_row`: the row of an instruction tells its effect, up to data memory.
- `Stepped.retimes`: one row retimes one instruction. `turns_retime`: the rows of a run retime the run.
- `trace_retimes`: the trace of a run predicts the run under every other configuration of the caches.
-/
import Rv32im.Results.IsaRun
import Rv32im.Results.Lookahead

namespace Rv32im

/-! ## The simulator -/

namespace RetireEvent

/-- the branch of a row is taken, over the registers in front of it -/
def taken (r : Regs) (e : RetireEvent) : Bool :=
  (branchTake (funct3 e.insn) (r (rs1 e.insn)) (r (rs2 e.insn))).getD false

def kind (r : Regs) (e : RetireEvent) : Kind :=
  match opcode e.insn with
  | 0x6f => .jump
  | 0x67 => .jump
  | 0x63 => .branch (e.taken r)
  | 0x03 => .load e.memAddr
  | 0x23 => .store e.memAddr
  | 0x33 => if funct7 e.insn = 0x01 then .mulDiv else .alu
  | 0x73 => .system
  | _ => .alu

/-- the pc behind a row -/
def target (r : Regs) (e : RetireEvent) : BitVec 32 :=
  match opcode e.insn with
  | 0x6f => e.pc + immJ e.insn
  | 0x67 => (r (rs1 e.insn) + immI e.insn) &&& ~~~1
  | 0x63 => if e.taken r then e.pc + immB e.insn else e.pc + 4
  | _ => e.pc + 4

/-- the effect that a row tells, over no memory -/
def effect (r : Regs) (e : RetireEvent) : Effect :=
  ⟨e.kind r, e.target r, some (Fin.ofNat 32 e.rd, e.wdata), Memory.zeros 0⟩

/-- the redirect that a row tells -/
def redirect (r : Regs) (e : RetireEvent) : Option (BitVec 32) := if (e.kind r).jumps then some (e.target r) else none

end RetireEvent

namespace CpuModel

variable {cfg : CpuConfig}

/-- the model without its memories -/
def hollow (s : CpuModel cfg) : CpuModel cfg :=
  { s with instructionMemory := Memory.zeros 0, dataMemory := Memory.zeros 0 }

/-- one row, in front of the next one -/
def retimeRow (s : CpuModel cfg) (row : RetireEvent) (next : Option RetireEvent) : Option (CpuModel cfg) :=
  let e := row.effect s.regs
  match Caches.charge e.kind row.pc e.nextPc (.ok (next.bind fun n => n.redirect s.regs)) s.caches with
  | .ok stalls c => some (({ s with pc := row.pc } : CpuModel cfg).retired row.insn e stalls c)
  | _ => none

def retimeRows (s : CpuModel cfg) : List RetireEvent → Option (CpuModel cfg)
  | [] => some s
  | row :: rows => (s.retimeRow row rows.head?).bind fun t => t.retimeRows rows

end CpuModel

/-- all rows of a trace, from reset at the pc of the first one -/
def retime (cfg : CpuConfig) (h : cfg.Accepted) (rows : List RetireEvent) : Option (CpuModel cfg) :=
  (boot cfg h 0 0 (rows.head?.elim 0 RetireEvent.pc)).hollow.retimeRows rows

/-! ## One row -/

/-- the effect that an event tells, over no memory -/
def Effect.told (e : Effect) (pc insn : BitVec 32) : Effect :=
  ⟨e.kind, e.nextPc, some (Fin.ofNat 32 (e.event pc insn).rd, (e.event pc insn).wdata), Memory.zeros 0⟩

/-- it has the event, and writes the same -/
theorem Effect.told_event (e : Effect) (pc insn : BitVec 32) : (e.told pc insn).event pc insn = e.event pc insn ∧
    ∀ r : Regs, Function.update ((e.told pc insn).regs r) 0 0 = Function.update (e.regs r) 0 0 := by
  obtain ⟨kind, next, wr, m⟩ := e
  have hval : ∀ d : Fin 32, Fin.ofNat 32 d.val = d := fun d => Fin.ofNat_val_eq_self d
  rcases wr with _ | ⟨d, v⟩
  · cases kind <;> exact ⟨rfl, fun _ => rfl⟩
  · cases kind <;> simp only [told, Effect.event, Effect.regs, hval, implies_true, and_self]

/-- the event of an effect tells where its instruction stands and what it accesses -/
theorem Effect.event_tells (e : Effect) (pc insn : BitVec 32) : (e.event pc insn).pc = pc ∧ (e.event pc insn).insn = insn ∧
    ∀ a, e.kind = .load a ∨ e.kind = .store a → (e.event pc insn).memAddr = a := by
  obtain ⟨kind, next, wr, m⟩ := e
  cases kind with
  | load a => rcases wr with _ | ⟨d, v⟩ <;> exact ⟨rfl, rfl, fun b hb => by rcases hb with hb | hb <;> cases hb; rfl⟩
  | store a => rcases wr with _ | ⟨d, v⟩ <;> exact ⟨rfl, rfl, fun b hb => by rcases hb with hb | hb <;> cases hb; rfl⟩
  | _ => rcases wr with _ | ⟨d, v⟩ <;> exact ⟨rfl, rfl, fun b hb => by rcases hb with hb | hb <;> cases hb⟩

/-- **The row of an instruction** tells its kind and the pc behind it. -/
theorem effect_of_row {m : Memory} {r : Regs} {pc insn : BitVec 32} {e : Effect} (h : effect m r pc insn = .ok e)
    {row : RetireEvent} {k : ℕ} (hrow : row.untimed = { e.event pc insn with retired := k }) :
    row.pc = pc ∧ row.insn = insn ∧ row.kind r = e.kind ∧ row.target r = e.nextPc := by
  obtain ⟨hpc, hinsn, haddr⟩ := e.event_tells pc insn
  replace hpc : row.pc = pc := (congrArg RetireEvent.pc hrow).trans hpc
  replace hinsn : row.insn = insn := (congrArg RetireEvent.insn hrow).trans hinsn
  replace haddr : ∀ a, e.kind = .load a ∨ e.kind = .store a → row.memAddr = a := fun a ha =>
    (congrArg RetireEvent.memAddr hrow).trans (haddr a ha)
  refine ⟨hpc, hinsn, ?_⟩
  unfold RetireEvent.kind RetireEvent.target RetireEvent.taken
  rw [hpc, hinsn]
  unfold effect at h
  split at h <;> rename_i hop
  · cases h
    simp only [hop, and_self]
  · cases h
    simp only [hop, and_self]
  · cases h
    simp only [hop, and_self]
  · split_ifs at h
    · cases h
    · cases h
      simp only [hop, and_self]
  · simp only at h
    cases hb : branchTake (funct3 insn) (r (rs1 insn)) (r (rs2 insn)) with
    | none =>
      rw [hb] at h
      cases h
    | some taken =>
      rw [hb] at h
      cases h
      simp only [hop, Option.getD_some, and_self]
  · obtain ⟨v, -, rfl⟩ := map_ok h
    simp only [hop, haddr _ (.inl rfl), and_self]
  · obtain ⟨v, -, rfl⟩ := map_ok h
    simp only [hop, haddr _ (.inr rfl), and_self]
  · obtain ⟨v, -, rfl⟩ := map_ok h
    simp only [hop, and_self]
  · split_ifs at h with hm
    · obtain ⟨v, -, rfl⟩ := map_ok h
      simp only [hop, hm, if_true, and_self]
    · obtain ⟨v, -, rfl⟩ := map_ok h
      simp only [hop, hm, if_false, and_self]
  · cases h
    simp only [hop, and_self]
  · split_ifs at h
    · cases h
      simp only [hop, and_self]
    · cases h
  · cases h

/-- only a store looks ahead -/
theorem Caches.charge_look {cfg : CpuConfig} {k : Kind} (hk : k.stores = false) (pc nextPc : BitVec 32)
    (look look' : Except Exn (Option (BitVec 32))) :
    (charge k pc nextPc look : M cfg (BitVec 32)) = charge k pc nextPc look' := by
  cases k <;> first | rfl | cases hk

namespace CpuModel

variable {cfg : CpuConfig} {s t : CpuModel cfg}

/-- the rows that instructions leave, with any cycles -/
def Rows (s t : CpuModel cfg) (rows : List RetireEvent) : Prop :=
  t.trace.map RetireEvent.untimed = s.trace.map RetireEvent.untimed ++ rows.map RetireEvent.untimed

/-- the row of one instruction -/
theorem Stepped.row_event {b : Bool} (w : Stepped s b t) {row : RetireEvent} (hrow : Rows s t [row]) :
    ∃ k, row.untimed = { w.e.event s.pc w.insn with retired := k } := by
  have harch : t.trace.map RetireEvent.untimed = _ := congrArg Arch.trace w.arch
  exact ⟨_, (List.cons.inj (List.append_cancel_left (hrow.symm.trans harch))).1⟩

/-- an effect and what its event tells retire alike, up to the memories -/
theorem retired_told (s : CpuModel cfg) (insn : BitVec 32) (e : Effect) (stalls : BitVec 32) (c : Caches cfg) :
    s.hollow.retired insn (e.told s.pc insn) stalls c = (s.retired insn e stalls c).hollow := by
  obtain ⟨hevent, hregs⟩ := e.told_event s.pc insn
  have hevent' : (e.told s.pc insn).event s.hollow.pc insn = e.event s.pc insn := hevent
  have hregs' : Function.update ((e.told s.pc insn).regs s.hollow.regs) 0 0 = Function.update (e.regs s.regs) 0 0 :=
    hregs s.regs
  unfold retired
  rw [hevent', hregs']
  rfl

theorem retimeRow_ok {row : RetireEvent} {next : Option RetireEvent} {stalls : BitVec 32} {c : Caches cfg}
    (h : Caches.charge (row.kind s.regs) row.pc (row.target s.regs) (.ok (next.bind fun n => n.redirect s.regs))
      s.caches = .ok stalls c) :
    s.retimeRow row next =
      some (({ s with pc := row.pc } : CpuModel cfg).retired row.insn (row.effect s.regs) stalls c) := by
  have hcharge : Caches.charge (row.effect s.regs).kind row.pc (row.effect s.regs).nextPc
      (.ok (next.bind fun n => n.redirect s.regs)) s.caches = .ok stalls c := h
  unfold retimeRow
  simp only [hcharge]

/-- **One row retimes one instruction**, whatever its cycle is. -/
theorem Stepped.retimes {b : Bool} (w : Stepped s b t) {row : RetireEvent} {next : Option RetireEvent}
    (hrow : Rows s t [row])
    (hnext : w.e.kind.stores = true → s.look = .ok (next.bind fun n => n.redirect s.regs)) :
    s.hollow.retimeRow row next = some t.hollow := by
  obtain ⟨k, huntimed⟩ := w.row_event hrow
  obtain ⟨hpc, hinsn, hkind, htarget⟩ := effect_of_row w.effect huntimed
  have hrd : row.rd = (w.e.event s.pc w.insn).rd := (congrArg RetireEvent.rd huntimed).trans rfl
  have hwdata : row.wdata = (w.e.event s.pc w.insn).wdata := (congrArg RetireEvent.wdata huntimed).trans rfl
  have hcharge : Caches.charge (row.kind s.regs) row.pc (row.target s.regs)
      (.ok (next.bind fun n => n.redirect s.regs)) s.caches = .ok w.stalls w.c := by
    rw [hpc, hkind, htarget]
    cases hk : w.e.kind.stores with
    | true => exact hnext hk ▸ w.charge
    | false => exact (congrFun (Caches.charge_look hk _ _ _ s.look) s.caches).trans w.charge
  have heffect : row.effect s.regs = w.e.told s.pc w.insn := by
    unfold RetireEvent.effect Effect.told
    rw [hkind, htarget, hrd, hwdata]
  rw [retimeRow_ok (s := s.hollow) hcharge, hpc, hinsn]
  refine congrArg some ?_
  calc _ = s.hollow.retired w.insn (row.effect s.regs) w.stalls w.c := rfl
    _ = s.hollow.retired w.insn (w.e.told s.pc w.insn) w.stalls w.c := by rw [heffect]
    _ = (s.retired w.insn w.e w.stalls w.c).hollow := retired_told s w.insn w.e w.stalls w.c
    _ = t.hollow := by rw [← w.after]

/-! ## All rows -/

/-- the first row is that of the first instruction -/
theorem Stepped.rows_cons {b : Bool} {u : CpuModel cfg} (w : Stepped s b u) (hpre : u.trace <+: t.trace)
    {rows : List RetireEvent} (hrows : Rows s t rows) :
    ∃ row rest, rows = row :: rest ∧ Rows s u [row] ∧ Rows u t rest := by
  have harch : u.trace.map RetireEvent.untimed = s.trace.map RetireEvent.untimed ++ [_] := congrArg Arch.trace w.arch
  obtain ⟨l, hl⟩ := hpre
  have hall : t.trace.map RetireEvent.untimed = u.trace.map RetireEvent.untimed ++ l.map RetireEvent.untimed := by
    rw [← hl, List.map_append]
  have hsame := hrows.symm.trans hall
  rw [harch, List.append_assoc] at hsame
  cases rows with
  | nil => cases List.append_cancel_left hsame
  | cons row rest =>
    obtain ⟨hhead, htail⟩ := List.cons.inj (List.append_cancel_left hsame)
    refine ⟨row, rest, rfl, harch.trans (congrArg _ (congrArg (fun e => [e]) hhead.symm)), hall.trans ?_⟩
    exact congrArg _ htail.symm

/-- the next row tells what a store looks ahead to -/
theorem Stepped.look_told {b b' : Bool} {u v : CpuModel cfg} (w : Stepped s b u) (hzero : s.regs 0 = 0)
    (hk : w.e.kind.stores = true) (w' : Stepped u b' v) {next : RetireEvent} (hnext : Rows u v [next]) :
    s.look = .ok (next.redirect s.regs) := by
  obtain ⟨k, huntimed⟩ := w'.row_event hnext
  obtain ⟨-, -, hkind, htarget⟩ := effect_of_row w'.effect huntimed
  have hregs := (w.store_keeps hzero hk).2.1
  rw [w.look_eq hzero hk w', RetireEvent.redirect, ← hregs, hkind, htarget, w'.pc]

/-- **The rows of a run retime the run.** -/
theorem turns_retime {n : ℕ} (h : Turns n s t) (hs : s.Sound) (hhalt : t.halted = true) {rows : List RetireEvent}
    (hrows : Rows s t rows) : s.hollow.retimeRows rows = some t.hollow := by
  induction n generalizing s rows with
  | zero =>
    cases h
    have hnil := List.append_cancel_left (hrows.symm.trans (List.append_nil _).symm)
    rw [List.map_eq_nil_iff.1 hnil]
    rfl
  | succ n ih =>
    cases h with
    | @cons _ _ u _ b hlive hstep hrest =>
      obtain ⟨w⟩ := step_of_live hlive hstep
      obtain ⟨row, rest, rfl, hrow, hrows'⟩ := w.rows_cons (turns_rows hrest) hrows
      have hahead : w.e.kind.stores = true → s.look = .ok (rest.head?.bind fun n => n.redirect s.regs) := by
        intro hk
        have hgo := (w.store_keeps hs.zero hk).2.2.2
        cases hrest with
        | nil => exact absurd (hgo.symm.trans hhalt) Bool.noConfusion
        | cons _ hnext hrest' =>
          -- a store is never the last instruction
          obtain ⟨w'⟩ := step_of_live hgo hnext
          obtain ⟨next, rest', rfl, hnext', -⟩ := w'.rows_cons (turns_rows hrest') hrows'
          exact w.look_told hs.zero hk w' hnext'
      calc s.hollow.retimeRows (row :: rest) = (s.hollow.retimeRow row rest.head?).bind _ := rfl
        _ = u.hollow.retimeRows rest := by rw [w.retimes hrow hahead]; rfl
        _ = some t.hollow := ih hrest (w.sound hs) hrows'

/-- the first row of a run stands where the run starts -/
theorem turns_head {n : ℕ} (h : Turns n s t) (hlive : s.halted = false) (hhalt : t.halted = true)
    {rows : List RetireEvent} (hrows : Rows s t rows) : rows.head?.elim 0 RetireEvent.pc = s.pc := by
  cases h with
  | nil => exact absurd (hlive.symm.trans hhalt) Bool.noConfusion
  | @cons _ _ u _ b _ hstep hrest =>
    obtain ⟨w⟩ := step_of_live hlive hstep
    obtain ⟨row, rest, rfl, hrow, -⟩ := w.rows_cons (turns_rows hrest) hrows
    obtain ⟨k, huntimed⟩ := w.row_event hrow
    exact (effect_of_row w.effect huntimed).1

end CpuModel

open CpuModel

/-- **The trace of a run predicts every other run.** From the rows of a run that returns, whatever its caches and its
cycles are, the simulator without memories computes the run of the same program under any accepted configuration with
the same memory size: the whole final state but the memories, with every counter and every row. -/
theorem trace_retimes (cfg cfg' : CpuConfig) (h : cfg.Accepted) (h' : cfg'.Accepted)
    (hmem : cfg.memorySize + 16 ≤ 2 ^ 32) (hsize : cfg'.memorySize = cfg.memorySize) (program data : ℕ → BitVec 8)
    (pc : BitVec 32) (t : CpuModel cfg) (ht : run (boot cfg h program data pc) = .ok () t)
    (hlimit : t.stats.retired ≤ cfg'.maxInstructions) :
    ∃ t', run (boot cfg' h' program data pc) = .ok () t' ∧ retime cfg' h' t.trace = some t'.hollow := by
  obtain ⟨log, hlog, hrows, hcount⟩ := boot_returns hmem ht
  have hmachine : imageMachine cfg' program = imageMachine cfg program := by
    unfold imageMachine
    rw [hsize]
  have hstart : imageStart cfg' data pc = imageStart cfg data pc := by
    unfold imageStart
    rw [hsize]
  have hsome : ((imageMachine cfg' program).run cfg'.maxInstructions (imageStart cfg' data pc)).isSome = true := by
    rw [hmachine, hstart, Isa.Machine.run_mono (Isa.Machine.run_exact hlog) (hcount ▸ hlimit)]
    rfl
  obtain ⟨t', ht'⟩ := boot_follows (h := h') (hsize ▸ hmem) hsome
  obtain ⟨log', hlog', hrows', -⟩ := boot_returns (hsize ▸ hmem) ht'
  rw [hmachine] at hlog' hrows'
  rw [hstart, Isa.Machine.run_mono (Isa.Machine.run_exact hlog) (hcount ▸ hlimit)] at hlog'
  obtain ⟨rfl, -⟩ := Prod.mk.inj (Option.some.inj hlog')
  have hsame : Rows (boot cfg' h' program data pc) t' t.trace := hrows'.trans hrows.symm
  obtain ⟨n, hpath, hhalt⟩ := run_ok.1 ht'
  refine ⟨t', ht', ?_⟩
  unfold retime
  rw [turns_head hpath rfl hhalt hsame]
  exact turns_retime hpath (sound_boot h' program data pc) hhalt hsame

/-- a run without caches predicts the run with split caches -/
theorem trace_retimes_cacheTest : ∃ t t', run (boot noCaches noCaches_accepted (wordImage cacheTest) 0 0) = .ok () t ∧
    run (boot splitCaches splitCaches_accepted (wordImage cacheTest) 0 0) = .ok () t' ∧
    (retime splitCaches splitCaches_accepted t.trace).map (fun m => (m.stats, m.trace)) = some (t'.stats, t'.trace) := by
  have hprogram : ((imageMachine noCaches (wordImage cacheTest)).run 11 (imageStart noCaches 0 0)).isSome = true := by
    decide +kernel
  obtain ⟨⟨log, v⟩, hlog⟩ := Option.isSome_iff_exists.1 hprogram
  have hlimit : 11 ≤ noCaches.maxInstructions := by decide
  obtain ⟨t, ht⟩ := boot_follows (h := noCaches_accepted) (by decide)
    (Option.isSome_iff_exists.2 ⟨_, Isa.Machine.run_mono hlog hlimit⟩)
  obtain ⟨log', hlog', -, hcount⟩ := boot_returns (by decide) ht
  obtain ⟨t', ht', hretime⟩ := trace_retimes noCaches splitCaches noCaches_accepted splitCaches_accepted (by decide) rfl
    (wordImage cacheTest) 0 0 t ht (hcount ▸ Isa.Machine.run_length hlog')
  exact ⟨t, t', ht, ht', hretime ▸ rfl⟩

end Rv32im
