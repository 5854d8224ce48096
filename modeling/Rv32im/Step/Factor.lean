/-
`CpuModel.step` is its two halves put together (`Step/Effect.lean`).

- `execute_eq`: the opcode switch runs the architectural effect and then the data-memory part of the cache side.
- `step_ok`: a step returns exactly when the effect exists and the cache side returns, and then the state after it is
  `CpuModel.retired`.
- `run_inv`, `run_rel`: what every instruction keeps, of one model or of two, holds after a run.
-/
import Rv32im.Step.Effect

namespace Rv32im

namespace CpuModel

variable {cfg : CpuConfig}

/-! ## Calls on the cache side -/

def onCaches {α : Type} (m : Caches.M cfg α) : StepM cfg α := Exec.zoom caches putCaches m

theorem lens_caches : Exec.Lens (caches : CpuModel cfg → Caches cfg) putCaches :=
  ⟨fun _ _ => rfl, fun _ => rfl, fun _ _ _ => rfl⟩

theorem front_eq {α : Type} (m : FetchM {} cfg.icache α) : (front m : StepM cfg α) = onCaches (Caches.front m) := by
  funext s
  simp only [front, onCaches, Caches.front, Exec.zoom]
  have hv : (⟨s.ifetch, s.icache⟩ : FrontEnd {} cfg.icache) = s.caches.frontEnd := rfl
  rw [hv]
  cases m s.caches.frontEnd <;> rfl

theorem dcacheAccess_eq (addr : BitVec 32) (w : Bool) :
    (dcacheAccess addr w : StepM cfg CacheAccessResult) = onCaches (Caches.access addr w) := rfl

/-- the look-ahead reads the registers and instruction memory only -/
theorem look_congr {s t : CpuModel cfg} (hm : s.instructionMemory = t.instructionMemory) (hr : s.regs = t.regs)
    (pc : BitVec 32) : s.sequentialNextRedirectTarget pc = t.sequentialNextRedirectTarget pc := by
  simp only [sequentialNextRedirectTarget, hm, hr]

theorem grant_eq (addr d : BitVec 32) (s : CpuModel cfg) :
    (do
      let credit := cacheOverlapCredit cfg d
      Exec.modify fun s => { s with cacheOverlapCycles := s.cacheOverlapCycles + credit.toNat }
      if credit ≠ 0 then do
        let replay ← dcacheReplay addr
        Exec.throwIf (replay.hit = false ∨ replay.stallCycles ≠ 0) .replayMiss
        Exec.modify fun s => { s with dcacheIfstallReplays := s.dcacheIfstallReplays + 1 }
        return credit
      else return credit : StepM cfg (BitVec 32)) s =
      onCaches (Caches.grant addr (cacheOverlapCredit cfg d)) s := by
  have hreplay : s.caches.dcache.access addr true = s.dcache.access addr true := rfl
  simp only [onCaches, Exec.zoom, Caches.grant, Exec.bind_apply, Exec.modify_apply, Exec.andThen_ok]
  split_ifs with hc hr
  · simp only [Exec.bind_apply, dcacheReplay, Exec.andThen_ok]
    rw [hreplay] at hr ⊢
    simp only [Exec.throwIf, if_pos hr]
    rfl
  · simp only [Exec.bind_apply, dcacheReplay, Exec.andThen_ok]
    rw [hreplay] at hr ⊢
    simp only [Exec.throwIf, if_neg hr]
    rfl
  · rfl

theorem overlapCredit_eq (addr pc d i : BitVec 32) (s : CpuModel cfg) :
    overlapCredit addr pc d i s = onCaches (Caches.credit (s.sequentialNextRedirectTarget (pc + 4)) addr d i) s := by
  simp only [overlapCredit, Exec.bind_apply, Exec.get_apply, Exec.andThen_ok]
  simp only [onCaches, Exec.zoom, Caches.credit]
  by_cases hd : d ≠ 0 ∧ i ≠ 0
  · rw [if_pos hd, if_pos hd, Exec.bind_apply]
    cases hl : s.sequentialNextRedirectTarget (pc + 4) with
    | error e => rfl
    | ok target =>
      cases target with
      | none => rfl
      | some target =>
        simp only [Exec.lift, Exec.andThen_ok]
        have hw : s.caches.icache.wouldHit target = s.icache.wouldHit target := rfl
        rw [hw]
        cases s.icache.wouldHit target with
        | true => rfl
        | false =>
          have hg := grant_eq addr d s
          simp only [Bool.false_eq_true, if_false]
          exact hg
  · rw [if_neg hd, if_neg hd]
    rfl

/-! ## The opcode switch -/

/-- the counter that has moved when an encoding of OP is refused -/
def earlyCount (insn : BitVec 32) (st : PerformanceStats) : PerformanceStats :=
  if opcode insn = 0x33 then
    if funct7 insn = 0x01 then { st with mulDiv := st.mulDiv + 1 } else { st with alu := st.alu + 1 }
  else st

/-- the switch, from the effect and the data-memory part of the cache side -/
def switched (s : CpuModel cfg) (insn stalls : BitVec 32) : Outcome Exn (CpuModel cfg) Locals :=
  match effect s.dataMemory s.regs s.pc insn with
  | .error x => .throw x { s with stats := earlyCount insn s.stats }
  | .ok e =>
    match Caches.memory e.kind s.pc s.look stalls s.caches with
    | .ok stalls c => .ok (e.locals s.pc insn stalls) (s.executed e c)
    | .throw x c => .throw x (({ s with dataMemory := e.mem } : CpuModel cfg).putCaches c)
    | .diverge => .diverge

theorem loadStalls_eq (addr pc stalls : BitVec 32) (s : CpuModel cfg) :
    loadStalls addr pc stalls s = onCaches (Caches.memory (.load addr) pc s.look stalls) s := by
  simp only [loadStalls, Caches.memory, onCaches, Exec.zoom_bind lens_caches, Exec.zoom_pure lens_caches,
    dcacheAccess_eq, front_eq]

/-- the look-ahead runs after the access and the fetches, which leave the registers and instruction memory alone -/
theorem storeStalls_eq (addr stalls : BitVec 32) (s : CpuModel cfg) :
    storeStalls addr s.pc stalls s = onCaches (Caches.memory (.store addr) s.pc s.look stalls) s := by
  simp only [storeStalls, Caches.memory, onCaches, Exec.zoom_bind lens_caches, Exec.zoom_pure lens_caches,
    dcacheAccess_eq, front_eq]
  rw [Exec.bind_apply, Exec.bind_apply]
  cases hacc : Exec.zoom caches putCaches (Caches.access addr true) s with
  | throw x t => rfl
  | diverge => rfl
  | ok a t =>
    obtain ⟨c, -, rfl⟩ := Exec.zoom_ok.1 hacc
    rw [Exec.andThen_ok, Exec.andThen_ok, Exec.bind_apply, Exec.bind_apply]
    cases hfr : Exec.zoom caches putCaches (Caches.front (FrontEnd.onDcacheStall s.pc a.stallCycles))
        (putCaches c s) with
    | throw x t => rfl
    | diverge => rfl
    | ok f t =>
      obtain ⟨d, -, rfl⟩ := Exec.zoom_ok.1 hfr
      rw [Exec.andThen_ok, Exec.andThen_ok, Exec.bind_apply, Exec.bind_apply, overlapCredit_eq]
      rfl

theorem execLoad_eq (s : CpuModel cfg) (insn stalls : BitVec 32) (h : opcode insn = 0x03) :
    execLoad insn (Locals.start s.pc insn stalls) s = s.switched insn stalls := by
  simp only [execLoad, switched, effect, h, Exec.bind_apply, Exec.get_apply, Exec.andThen_ok]
  cases hv : loadValue s.dataMemory s.pc insn (s.regs (rs1 insn) + immI insn) with
  | error x => simp [Exec.lift, Except.map, earlyCount, h]
  | ok v =>
    simp only [Exec.lift, Except.map, Exec.andThen_ok, Exec.bind_apply, loadStalls_eq, onCaches, Exec.zoom,
      Locals.start]
    cases Caches.memory (.load (s.regs (rs1 insn) + immI insn)) s.pc s.look stalls s.caches <;> rfl

theorem execStore_eq (s : CpuModel cfg) (insn stalls : BitVec 32) (h : opcode insn = 0x23) :
    execStore insn (Locals.start s.pc insn stalls) s = s.switched insn stalls := by
  simp only [execStore, switched, effect, h, Exec.bind_apply, Exec.get_apply, Exec.andThen_ok]
  cases hv : storeValue s.dataMemory s.pc insn (s.regs (rs1 insn) + immS insn) (s.regs (rs2 insn)) with
  | error x => simp [Exec.lift, Except.map, earlyCount, h]
  | ok m =>
    -- the store has been made, and neither the caches nor the look-ahead see it
    have hcaches : ({ s with dataMemory := m } : CpuModel cfg).caches = s.caches := rfl
    have hlook : ({ s with dataMemory := m } : CpuModel cfg).look = s.look := rfl
    have hs := storeStalls_eq (s.regs (rs1 insn) + immS insn) stalls { s with dataMemory := m }
    simp only [Exec.lift, Except.map, Exec.andThen_ok, Exec.bind_apply, Exec.modify_apply, Locals.start] at hs ⊢
    rw [hs]
    simp only [onCaches, Exec.zoom]
    rw [hcaches, hlook]
    cases Caches.memory (.store (s.regs (rs1 insn) + immS insn)) s.pc s.look stalls s.caches <;> rfl

theorem execute_eq (s : CpuModel cfg) (insn stalls : BitVec 32) :
    execute insn (Locals.start s.pc insn stalls) s = s.switched insn stalls := by
  unfold execute
  split <;> rename_i hop
  · simp only [switched, effect, hop]; rfl
  · simp only [switched, effect, hop]; rfl
  · simp only [switched, effect, hop]; rfl
  · simp only [switched, effect, hop, execJalr, Exec.bind_apply, Exec.get_apply, Exec.andThen_ok]
    split_ifs
    · simp [illegal, Exec.lift, earlyCount, hop]
    · rfl
  · simp only [switched, effect, hop, execBranch, Exec.bind_apply, Exec.get_apply, Exec.andThen_ok]
    cases branchTake (funct3 insn) (s.regs (rs1 insn)) (s.regs (rs2 insn)) with
    | none => simp [illegal, Exec.lift, earlyCount, hop]
    | some taken => cases taken <;> rfl
  · exact execLoad_eq s insn stalls hop
  · exact execStore_eq s insn stalls hop
  · simp only [switched, effect, hop, execOpImm, Exec.bind_apply, Exec.get_apply, Exec.andThen_ok]
    cases opImmValue s.pc insn (s.regs (rs1 insn)) with
    | error x => simp [Exec.lift, Except.map, earlyCount, hop]
    | ok v => rfl
  · simp only [switched, effect, hop, execOp, Exec.bind_apply, Exec.get_apply, Exec.andThen_ok]
    split_ifs with hm
    · cases mulDivValue s.pc insn (s.regs (rs1 insn)) (s.regs (rs2 insn)) with
      | error x => simp [Exec.lift, Except.map, earlyCount, hop, hm, Exec.bind_apply, bump]
      | ok v => rfl
    · cases opValue s.pc insn (s.regs (rs1 insn)) (s.regs (rs2 insn)) with
      | error x => simp [Exec.lift, Except.map, earlyCount, hop, hm, Exec.bind_apply, bump]
      | ok v => rfl
  · simp only [switched, effect, hop]; rfl
  · simp only [switched, effect, hop, execSystem, Exec.bind_apply, Exec.get_apply, Exec.andThen_ok]
    split_ifs
    · rfl
    · simp [illegal, Exec.lift, earlyCount, hop]
  · have hne : opcode insn ≠ 0x33 := by assumption
    have he : effect s.dataMemory s.regs s.pc insn = illegal s.pc insn "unknown opcode" := by
      unfold effect
      split <;> first | contradiction | rfl
    simp [switched, he, illegal, Exec.lift, earlyCount, hne]

/-- the redirect and drain requests are the control part of the cache side -/
theorem redirects_eq (e : Effect) (pc insn stalls : BitVec 32) (s : CpuModel cfg) :
    redirects (e.locals pc insn stalls) s = onCaches (Caches.control e.kind pc e.nextPc stalls) s := by
  have hcalls : ∀ m : FetchM {} cfg.icache (BitVec 32),
      (do let more ← front m; return stalls + more : StepM cfg (BitVec 32)) =
        onCaches (do let f ← Caches.front m; return stalls + f) := by
    intro m
    simp only [onCaches, Exec.zoom_bind lens_caches, Exec.zoom_pure lens_caches, front_eq]
  have hpure : onCaches (pure stalls) = (pure stalls : StepM cfg (BitVec 32)) := Exec.zoom_pure lens_caches stalls
  unfold redirects Effect.locals Caches.control
  cases e.kind with
  | branch taken =>
    cases taken <;>
      simp only [addStalls, Kind.branch.injEq, reduceCtorEq, decide_true, decide_false, Bool.false_eq_true, if_true,
        if_false, bind_pure, hcalls, hpure]
  | _ =>
    simp only [addStalls, reduceCtorEq, decide_true, decide_false, Bool.false_eq_true, if_true, if_false, pure_bind,
      bind_pure, hcalls, hpure]

/-! ## The whole step -/

/-- a step gets as far as its fetch -/
structure Running (s : CpuModel cfg) : Prop where
  live : s.halted = false
  below : s.stats.retired < cfg.maxInstructions
  aligned : s.pc &&& 3 = 0

/-- the instruction after the demand fetch: the switch, then the redirects, then the retirement -/
theorem afterFetch_ok (s : CpuModel cfg) (insn stalls : BitVec 32) (b : Bool) (t : CpuModel cfg) :
    afterFetch s.pc insn stalls s = .ok b t ↔
      ∃ e, effect s.dataMemory s.regs s.pc insn = .ok e ∧
        ∃ st c, (do
          let stalls ← Caches.memory e.kind s.pc s.look stalls
          Caches.control e.kind s.pc e.nextPc stalls : Caches.M cfg (BitVec 32)) s.caches = .ok st c ∧
          b = !t.halted ∧ t = s.retired insn e st c := by
  rw [afterFetch, Exec.bind_apply, execute_eq, switched]
  cases he : effect s.dataMemory s.regs s.pc insn with
  | error x => simp
  | ok e =>
    simp only [Except.ok.injEq, exists_eq_left', Exec.bind_apply]
    cases hm : Caches.memory e.kind s.pc s.look stalls s.caches with
    | throw x c => simp
    | diverge => simp
    | ok st c =>
      simp only [Exec.andThen_ok, Exec.bind_apply, Exec.modify_apply, redirects_eq, onCaches, Exec.zoom]
      rw [Effect.locals_nextPc, executed_caches]
      cases Caches.control e.kind s.pc e.nextPc st c with
      | throw x d => simp
      | diverge => simp
      | ok st' d =>
        simp only [Exec.andThen_ok, Outcome.ok.injEq]
        refine ⟨?_, ?_⟩
        · intro h
          have h' := Outcome.ok.inj h
          refine ⟨st', d, ⟨rfl, rfl⟩, ?_, ?_⟩
          · rw [← h'.1, ← h'.2]
          · rw [← h'.2]; rfl
        · rintro ⟨_, _, ⟨rfl, rfl⟩, rfl, rfl⟩
          rfl

/-- what a returning step of a live model did -/
structure Stepped (s : CpuModel cfg) (b : Bool) (t : CpuModel cfg) where
  running : Running s
  insn : BitVec 32
  e : Effect
  stalls : BitVec 32
  c : Caches cfg
  fetch : s.instructionMemory.read32 s.pc = .ok insn
  effect : effect s.dataMemory s.regs s.pc insn = .ok e
  charge : Caches.charge e.kind s.pc e.nextPc s.look s.caches = .ok stalls c
  more : b = !t.halted
  after : t = s.retired insn e stalls c

/-- **A step returns** exactly when it is idle on a halted model, or its effect exists and its cache side returns. -/
theorem step_ok {s t : CpuModel cfg} {b : Bool} :
    step s = .ok b t ↔ (s.halted = true ∧ b = false ∧ t = s) ∨ Nonempty (Stepped s b t) := by
  simp only [step, Exec.bind_apply, Exec.get_apply, Exec.andThen_ok]
  by_cases hh : s.halted = true
  · have hno : ¬ Nonempty (Stepped s b t) := by
      intro ⟨w⟩
      rw [w.running.live] at hh
      cases hh
    simp [hh, hno, eq_comm]
  · rw [if_neg hh]
    simp only [Exec.bind_ok, Exec.throwIf_ok, Exec.lift_ok, front_eq]
    refine ⟨?_, ?_⟩
    · rintro ⟨_, _, ⟨hmax, rfl⟩, _, _, ⟨hal, rfl⟩, insn, _, ⟨hf, rfl⟩, st, u, hdem, hrest⟩
      obtain ⟨c, hc, rfl⟩ := Exec.zoom_ok.1 hdem
      obtain ⟨e, he, st', d, hd, hb, ht⟩ := (afterFetch_ok (s.putCaches c) insn st b t).1 hrest
      refine Or.inr ⟨⟨⟨by simpa using hh, by omega, by simpa using hal⟩, insn, e, st', d, hf, he, ?_, hb, ht⟩⟩
      exact Exec.bind_ok.2 ⟨st, c, hc, hd⟩
    · rintro (⟨h, -⟩ | ⟨⟨w⟩⟩)
      · exact absurd h hh
      · obtain ⟨st, c, hc, hd⟩ := Exec.bind_ok.1 w.charge
        have hrest := (afterFetch_ok (s.putCaches c) w.insn st b t).2 ⟨w.e, w.effect, w.stalls, w.c, hd, w.more, w.after⟩
        exact ⟨(), s, ⟨not_le.2 w.running.below, rfl⟩, (), s, ⟨not_not.2 w.running.aligned, rfl⟩, w.insn, s,
          ⟨w.fetch, rfl⟩, st, s.putCaches c, Exec.zoom_ok.2 ⟨c, hc, rfl⟩, hrest⟩

/-! ## Runs -/

theorem step_of_halted {s : CpuModel cfg} (h : s.halted = true) : step s = .ok false s :=
  step_ok.2 (Or.inl ⟨h, rfl, rfl⟩)

theorem step_of_live {s t : CpuModel cfg} {b : Bool} (h : s.halted = false) (hs : step s = .ok b t) :
    Nonempty (Stepped s b t) := by
  rcases step_ok.1 hs with ⟨hh, -, -⟩ | hw
  · rw [h] at hh
    cases hh
  · exact hw

/-- what every instruction keeps -/
theorem step_inv {P : CpuModel cfg → Prop} (hP : ∀ s t b, Stepped s b t → P s → P t) {s t : CpuModel cfg} {b : Bool}
    (h : P s) (hs : step s = .ok b t) : P t := by
  rcases step_ok.1 hs with ⟨-, -, rfl⟩ | ⟨⟨w⟩⟩
  · exact h
  · exact hP s t b w h

theorem run_inv {P : CpuModel cfg → Prop} (hP : ∀ s t b, Stepped s b t → P s → P t) {n : ℕ} {s t : CpuModel cfg}
    (ht : Exec.iter step n s = some t) (h : P s) : P t := by
  apply Exec.iter_inv _ ht h
  intro u a v hu hstep
  exact step_inv hP hu hstep

/-- what every pair of instructions of two models keeps that are halted or live together -/
theorem step_rel {cfg' : CpuConfig} {R : CpuModel cfg → CpuModel cfg' → Prop}
    (hhalt : ∀ s s', R s s' → s.halted = s'.halted)
    (hR : ∀ s s' t t' b b', Stepped s b t → Stepped s' b' t' → R s s' → R t t') {s t : CpuModel cfg}
    {s' t' : CpuModel cfg'} {b b' : Bool} (h : R s s') (hs : step s = .ok b t) (hs' : step s' = .ok b' t') :
    R t t' := by
  have hsame := hhalt s s' h
  cases hh : s.halted with
  | true =>
    rw [step_of_halted hh] at hs
    rw [step_of_halted (hsame ▸ hh)] at hs'
    cases hs
    cases hs'
    exact h
  | false =>
    obtain ⟨w⟩ := step_of_live hh hs
    obtain ⟨w'⟩ := step_of_live (hsame ▸ hh) hs'
    exact hR s s' t t' b b' w w' h

theorem run_rel {cfg' : CpuConfig} {R : CpuModel cfg → CpuModel cfg' → Prop}
    (hhalt : ∀ s s', R s s' → s.halted = s'.halted)
    (hR : ∀ s s' t t' b b', Stepped s b t → Stepped s' b' t' → R s s' → R t t') {n : ℕ} {s t : CpuModel cfg}
    {s' t' : CpuModel cfg'} (ht : Exec.iter step n s = some t) (ht' : Exec.iter step n s' = some t') (h : R s s') :
    R t t' := by
  apply Exec.iter_rel _ ht ht' h
  intro u u' a a' v v' hu hs hs'
  exact step_rel hhalt hR hu hs hs'

end CpuModel

end Rv32im
