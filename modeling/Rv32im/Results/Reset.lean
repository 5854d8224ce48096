/-
`reset` against construction.

- `Twin`: two models with the same state, up to the reset PC of their configurations, the rows emitted before, and the
  fetch stream of a disabled I-cache.
- `step_twin`: a step of both has the same outcome and keeps them twins. `Twin.behaviour`: so has any number of calls.
- `reset_matches_construction`: a reset model behaves like a constructed model that is reset. It behaves like a
  constructed model that is not, for every program and every number of calls, exactly when the constructor's fetch
  pointer is right or never used.
-/
import Rv32im.Core.Related
import Rv32im.Timing.Sound
import Rv32im.Timing.Stream

namespace Rv32im

/-! ## Twins -/

/-- the configuration with another reset PC -/
abbrev CpuConfig.startingAt (cfg : CpuConfig) (pc : BitVec 32) : CpuConfig := { cfg with resetPc := pc }

/-- the front ends agree, but for the fetch stream of a disabled I-cache -/
structure FrontEnd.Twin {config : IFetchStreamConfig} {icfg : CacheConfig} (f g : FrontEnd config icfg) : Prop where
  icache : f.icache = g.icache
  ifetch : icfg.enabled = true → f.ifetch = g.ifetch

namespace FrontEnd

variable {config : IFetchStreamConfig} {icfg : CacheConfig}

theorem Twin.eq {f g : FrontEnd config icfg} (h : Twin f g) (hen : icfg.enabled = true) : f = g := by
  cases f
  cases g
  obtain ⟨hi, hf⟩ := h
  cases hi
  cases hf hen
  rfl

/-- an enabled I-cache sees equal front ends, so any call does the same -/
theorem related_of_enabled (hen : icfg.enabled = true) {α : Type} (m : FetchM config icfg α) :
    Exec.Related Twin m m := by
  intro f g h
  rw [h.eq hen]
  exact Exec.Related.refl (fun _ => ⟨rfl, fun _ => rfl⟩) m g

theorem ensureThrough_twin (pc : BitVec 32) : Exec.Related Twin (ensureThrough pc : FetchM config icfg (BitVec 32))
    (ensureThrough pc) := by
  by_cases hen : icfg.enabled = true
  · exact related_of_enabled hen _
  · rw [ensureThrough, if_pos (by simpa using hen)]
    exact Exec.related_pure 0

theorem onDcacheStall_twin (pc d : BitVec 32) : Exec.Related Twin (onDcacheStall pc d : FetchM config icfg (BitVec 32))
    (onDcacheStall pc d) := by
  by_cases hen : icfg.enabled = true
  · exact related_of_enabled hen _
  · rw [onDcacheStall, if_pos (by simp [hen])]
    exact Exec.related_pure 0

theorem redirect_twin (wrong pc target : BitVec 32) :
    Exec.Related Twin (redirect wrong pc target : FetchM config icfg (BitVec 32)) (redirect wrong pc target) := by
  by_cases hen : icfg.enabled = true
  · exact related_of_enabled hen _
  · rw [redirect, if_pos (by simpa using hen)]
    apply Exec.Related.bind
    · apply Exec.related_modify
      intro f g h
      exact ⟨h.icache, fun hen' => absurd hen' hen⟩
    · intro _
      exact Exec.related_pure 0

theorem onSystemDrain_twin (pc : BitVec 32) : Exec.Related Twin (onSystemDrain pc : FetchM config icfg (BitVec 32))
    (onSystemDrain pc) := by
  by_cases hen : icfg.enabled = true
  · exact related_of_enabled hen _
  · rw [onSystemDrain, if_pos (by simpa using hen)]
    exact Exec.related_pure 0

end FrontEnd

namespace CpuModel

variable {cfg : CpuConfig} {p : BitVec 32} {pre : List RetireEvent}

/-- the same state, behind the rows `pre` -/
structure Twin (pre : List RetireEvent) (s : CpuModel cfg) (s' : CpuModel (cfg.startingAt p)) : Prop where
  instructionMemory : s.instructionMemory = s'.instructionMemory
  dataMemory : s.dataMemory = s'.dataMemory
  regs : s.regs = s'.regs
  pc : s.pc = s'.pc
  halted : s.halted = s'.halted
  overlap : s.cacheOverlapCycles = s'.cacheOverlapCycles
  replays : s.dcacheIfstallReplays = s'.dcacheIfstallReplays
  stats : s.stats = s'.stats
  timing : s.timing = s'.timing
  icache : s.icache = s'.icache
  dcache : s.dcache = s'.dcache
  ifetch : cfg.icache.enabled = true → s.ifetch = s'.ifetch
  trace : s.trace = pre ++ s'.trace

/-- a call that twins answer in the same way -/
abbrev Agree {α : Type} (pre : List RetireEvent) (m : StepM cfg α) (m' : StepM (cfg.startingAt p) α) : Prop :=
  Exec.Related (Twin pre) m m'

/-! ## The calls of a step -/

theorem front_twin {α : Type} {m : FetchM {} cfg.icache α} (h : Exec.Related FrontEnd.Twin m m) :
    Agree (p := p) pre (front m : StepM cfg α) (front m : StepM (cfg.startingAt p) α) := by
  apply Exec.Related.zoom (Q := FrontEnd.Twin) _ _ h
  · intro s t hst
    exact ⟨hst.icache, hst.ifetch⟩
  · intro f g s t hfg hst
    exact { hst with icache := hfg.icache, ifetch := hfg.ifetch }

theorem dcacheAccess_twin (addr : BitVec 32) (w : Bool) :
    Agree (p := p) pre (dcacheAccess addr w : StepM cfg CacheAccessResult) (dcacheAccess addr w) := by
  intro s t h
  have haccess : s.dcache.access addr w = t.dcache.access addr w := congrArg (fun d => d.access addr w) h.dcache
  exact ⟨congrArg Prod.fst haccess, { h with dcache := congrArg Prod.snd haccess }⟩

theorem dcacheReplay_twin (addr : BitVec 32) :
    Agree (p := p) pre (dcacheReplay addr : StepM cfg CacheAccessResult) (dcacheReplay addr) := by
  intro s t h
  have haccess : s.dcache.access addr true = t.dcache.access addr true :=
    congrArg (fun d => d.access addr true) h.dcache
  exact ⟨congrArg Prod.fst haccess, { h with dcache := congrArg Prod.snd haccess }⟩

theorem bump_twin (f : PerformanceStats → PerformanceStats) :
    Agree (p := p) pre (bump f : StepM cfg Unit) (bump f) := by
  apply Exec.related_modify
  intro s t h
  exact { h with stats := congrArg f h.stats }

theorem writeReg_twin (rd : Fin 32) (v : BitVec 32) (event : RetireEvent) :
    Agree (p := p) pre (writeReg rd v event : StepM cfg RetireEvent) (writeReg rd v event) := by
  apply Exec.Related.bind
  · apply Exec.related_modify
    intro s t h
    exact { h with regs := by rw [h.regs] }
  · intro _
    exact Exec.related_pure _

theorem execAlu_twin (insn v : BitVec 32) (l : Locals) :
    Agree (p := p) pre (execAlu insn v l : StepM cfg Locals) (execAlu insn v l) :=
  (writeReg_twin _ _ _).bind fun _ => (bump_twin _).bind fun _ => Exec.related_pure _

theorem execJump_twin (insn target : BitVec 32) (l : Locals) :
    Agree (p := p) pre (execJump insn target l : StepM cfg Locals) (execJump insn target l) :=
  (writeReg_twin _ _ _).bind fun _ => (bump_twin _).bind fun _ => Exec.related_pure _

theorem execJalr_twin (insn : BitVec 32) (l : Locals) :
    Agree (p := p) pre (execJalr insn l : StepM cfg Locals) (execJalr insn l) := by
  apply Exec.related_get_bind
  intro s t h
  rw [h.regs, h.pc]
  exact Exec.related_ite (Exec.related_lift _) (execJump_twin _ _ _) s t h

theorem execBranch_twin (insn : BitVec 32) (l : Locals) :
    Agree (p := p) pre (execBranch insn l : StepM cfg Locals) (execBranch insn l) := by
  apply Exec.related_get_bind
  intro s t h
  simp only [h.regs, h.pc]
  cases branchTake (funct3 insn) (t.regs (rs1 insn)) (t.regs (rs2 insn)) with
  | none => exact Exec.related_lift _ s t h
  | some taken =>
    cases taken with
    | true => exact ((bump_twin _).bind fun _ => Exec.related_pure _) s t h
    | false => exact ((bump_twin _).bind fun _ => Exec.related_pure _) s t h

theorem execOp_twin (insn : BitVec 32) (l : Locals) :
    Agree (p := p) pre (execOp insn l : StepM cfg Locals) (execOp insn l) := by
  apply Exec.related_get_bind
  intro s t h
  simp only [h.regs, h.pc]
  refine Exec.related_ite ?_ ?_ s t h
  · exact (bump_twin _).bind fun _ => (Exec.related_lift _).bind fun _ => (writeReg_twin _ _ _).bind fun _ =>
      Exec.related_pure _
  · exact (bump_twin _).bind fun _ => (Exec.related_lift _).bind fun _ => (writeReg_twin _ _ _).bind fun _ =>
      Exec.related_pure _

theorem execOpImm_twin (insn : BitVec 32) (l : Locals) :
    Agree (p := p) pre (execOpImm insn l : StepM cfg Locals) (execOpImm insn l) := by
  apply Exec.related_get_bind
  intro s t h
  rw [h.regs, h.pc]
  exact ((Exec.related_lift _).bind fun _ => execAlu_twin _ _ _) s t h

theorem execSystem_twin (insn : BitVec 32) (l : Locals) :
    Agree (p := p) pre (execSystem insn l : StepM cfg Locals) (execSystem insn l) := by
  apply Exec.related_get_bind
  intro s t h
  rw [h.pc]
  refine Exec.related_ite ?_ (Exec.related_lift _) s t h
  apply Exec.Related.bind
  · apply Exec.related_modify
    intro s t h
    exact { h with halted := rfl }
  · intro _
    exact Exec.related_pure _

theorem loadStalls_twin (addr oldPc stalls : BitVec 32) :
    Agree (p := p) pre (loadStalls addr oldPc stalls : StepM cfg (BitVec 32)) (loadStalls addr oldPc stalls) :=
  (dcacheAccess_twin _ _).bind fun _ => (front_twin (FrontEnd.onDcacheStall_twin _ _)).bind fun _ =>
    Exec.related_pure _

theorem execLoad_twin (insn : BitVec 32) (l : Locals) :
    Agree (p := p) pre (execLoad insn l : StepM cfg Locals) (execLoad insn l) := by
  apply Exec.related_get_bind
  intro s t h
  simp only [h.regs, h.pc, h.dataMemory]
  exact ((Exec.related_lift _).bind fun _ => (loadStalls_twin _ _ _).bind fun _ => (writeReg_twin _ _ _).bind fun _ =>
    (bump_twin _).bind fun _ => Exec.related_pure _) s t h

/-- the look-ahead reads the registers and instruction memory -/
theorem redirectTarget_twin {s : CpuModel cfg} {t : CpuModel (cfg.startingAt p)} (h : Twin pre s t) (pc : BitVec 32) :
    s.sequentialNextRedirectTarget pc = t.sequentialNextRedirectTarget pc := by
  simp only [sequentialNextRedirectTarget, h.instructionMemory, h.regs]

theorem overlapCredit_twin (addr oldPc d f : BitVec 32) :
    Agree (p := p) pre (overlapCredit addr oldPc d f : StepM cfg (BitVec 32)) (overlapCredit addr oldPc d f) := by
  apply Exec.related_get_bind
  intro s t h
  have hhit : ∀ target, s.icache.wouldHit target = t.icache.wouldHit target := by
    intro target
    exact congrArg (fun i => i.wouldHit target) h.icache
  simp only [redirectTarget_twin h, hhit]
  refine Exec.related_ite ?_ (Exec.related_pure _) s t h
  apply Exec.Related.bind (Exec.related_lift _)
  rintro (_ | target)
  · exact Exec.related_pure _
  · apply Exec.related_ite (Exec.related_pure _)
    apply Exec.Related.bind
    · apply Exec.related_modify
      intro s t h
      exact { h with overlap := congrArg (· + (cacheOverlapCredit cfg d).toNat) h.overlap }
    · intro _
      apply Exec.related_ite _ (Exec.related_pure _)
      apply (dcacheReplay_twin addr).bind
      intro replay
      apply (Exec.related_throwIf Iff.rfl _).bind
      intro _
      apply Exec.Related.bind
      · apply Exec.related_modify
        intro s t h
        exact { h with replays := congrArg (· + 1) h.replays }
      · intro _
        exact Exec.related_pure _

theorem storeStalls_twin (addr oldPc stalls : BitVec 32) :
    Agree (p := p) pre (storeStalls addr oldPc stalls : StepM cfg (BitVec 32)) (storeStalls addr oldPc stalls) :=
  (dcacheAccess_twin _ _).bind fun _ => (front_twin (FrontEnd.onDcacheStall_twin _ _)).bind fun _ =>
    (overlapCredit_twin _ _ _ _).bind fun _ => Exec.related_pure _

theorem execStore_twin (insn : BitVec 32) (l : Locals) :
    Agree (p := p) pre (execStore insn l : StepM cfg Locals) (execStore insn l) := by
  apply Exec.related_get_bind
  intro s t h
  simp only [h.regs, h.pc, h.dataMemory]
  refine ((Exec.related_lift _).bind fun m => ?_) s t h
  apply Exec.Related.bind
  · apply Exec.related_modify
    intro s t h
    exact { h with dataMemory := rfl }
  · intro _
    exact (storeStalls_twin _ _ _).bind fun _ => (bump_twin _).bind fun _ => Exec.related_pure _

theorem execute_twin (insn : BitVec 32) (l : Locals) :
    Agree (p := p) pre (execute insn l : StepM cfg Locals) (execute insn l) := by
  intro s t h
  unfold execute
  split
  · exact execAlu_twin _ _ _ s t h
  · exact execAlu_twin _ _ _ s t h
  · exact execJump_twin _ _ _ s t h
  · exact execJalr_twin _ _ s t h
  · exact execBranch_twin _ _ s t h
  · exact execLoad_twin _ _ s t h
  · exact execStore_twin _ _ s t h
  · exact execOpImm_twin _ _ s t h
  · exact execOp_twin _ _ s t h
  · exact ((bump_twin _).bind fun _ => Exec.related_pure _) s t h
  · exact execSystem_twin _ _ s t h
  · rw [h.pc]
    exact Exec.related_lift _ s t h

theorem redirects_twin (l : Locals) : Agree (p := p) pre (redirects l : StepM cfg (BitVec 32)) (redirects l) := by
  have hadd : ∀ (c : Bool) (stalls : BitVec 32) (m : FetchM {} cfg.icache (BitVec 32)),
      Exec.Related FrontEnd.Twin m m → Agree (p := p) pre (addStalls c stalls m : StepM cfg (BitVec 32))
        (addStalls c stalls m) := by
    intro c stalls m hm
    apply Exec.related_ite _ (Exec.related_pure _)
    exact (front_twin hm).bind fun _ => Exec.related_pure _
  exact (hadd _ _ _ (FrontEnd.redirect_twin _ _ _)).bind fun _ => (hadd _ _ _ (FrontEnd.redirect_twin _ _ _)).bind
    fun _ => hadd _ _ _ (FrontEnd.onSystemDrain_twin _)

theorem retire_twin (insn stalls : BitVec 32) (l : Locals) :
    Agree (p := p) pre (retire insn stalls l : StepM cfg Bool) (retire insn stalls l) := by
  intro s t h
  have hsync : ∀ timing, ({ s with timing := timing } : CpuModel cfg).syncStats =
      ({ t with timing := timing } : CpuModel (cfg.startingAt p)).syncStats := by
    intro timing
    unfold syncStats
    simp only [h.stats, h.overlap, h.replays]
    rw [congrArg DirectMappedCacheModel.stats h.icache, congrArg DirectMappedCacheModel.stats h.dcache]
    rfl
  refine ⟨congrArg not h.halted, { h with stats := ?_, timing := ?_, trace := ?_ }⟩
  · simp only [h.timing, hsync]
  · simp only [h.timing]
  · simp only [h.timing, h.trace, List.append_assoc]
    rfl

/-- **A step of twins has one outcome**, and leaves twins. -/
theorem step_twin : Agree (p := p) pre (step : StepM cfg Bool) step := by
  apply Exec.related_get_bind
  intro s t h
  simp only [h.halted, h.pc, h.instructionMemory]
  refine Exec.related_ite (Exec.related_pure _) ?_ s t h
  apply (Exec.related_throwIf (by rw [h.stats]) _).bind
  intro _
  apply (Exec.related_throwIf (by rw [h.pc]) _).bind
  intro _
  apply (Exec.related_lift _).bind
  intro insn
  apply (front_twin (FrontEnd.ensureThrough_twin _)).bind
  intro stalls
  apply (execute_twin _ _).bind
  intro l
  apply Exec.Related.bind
  · apply Exec.related_modify
    intro s t h
    exact { h with regs := congrArg (fun r => Function.update r 0 0) h.regs, pc := rfl }
  · intro _
    exact (redirects_twin _).bind fun _ => retire_twin _ _ _

/-! ## Behaviour -/

/-- what a caller reads off a model: the counters, the registers, the pc and the emitted rows -/
structure View where
  stats : PerformanceStats
  regs : Regs
  pc : BitVec 32
  rows : List RetireEvent

/-- one line of a protocol of calls -/
inductive Seen where
  | returned (more : Bool)
  | threw (x : Exn)
  | hung
  | read (v : View)

/-- the view, without the first `old` rows -/
def view (old : ℕ) (s : CpuModel cfg) : View := ⟨s.stats, s.regs, s.pc, s.trace.drop old⟩

/-- n calls of `step`, each behind the one before it whether it returned or threw, and the view behind them -/
def calls (old : ℕ) : ℕ → CpuModel cfg → List Seen
  | 0, s => [.read (s.view old)]
  | n + 1, s =>
    match step s with
    | .ok more t => .returned more :: calls old n t
    | .throw x t => .threw x :: calls old n t
    | .diverge => [.hung]

/-- what n calls show, with the rows they emit -/
def behaviour (n : ℕ) (s : CpuModel cfg) : List Seen := s.calls s.trace.length n

theorem Twin.calls {s : CpuModel cfg} {t : CpuModel (cfg.startingAt p)} (h : Twin pre s t) (n : ℕ) :
    s.calls pre.length n = t.calls 0 n := by
  induction n generalizing s t with
  | zero =>
    unfold CpuModel.calls view
    rw [h.stats, h.regs, h.pc, h.trace, List.drop_left, List.drop_zero]
  | succ n ih =>
    unfold CpuModel.calls
    rcases (step_twin s t h).cases with ⟨a, u, v, hs, ht, huv⟩ | ⟨x, u, v, hs, ht, huv⟩ | ⟨hs, ht⟩
    · rw [hs, ht]
      exact congrArg _ (ih huv)
    · rw [hs, ht]
      exact congrArg _ (ih huv)
    · rw [hs, ht]

/-- **Twins behave alike**, for every number of calls. -/
theorem Twin.behaviour {s : CpuModel cfg} {t : CpuModel (cfg.startingAt p)} (h : Twin s.trace s t)
    (ht : t.trace = []) (n : ℕ) : s.behaviour n = t.behaviour n := by
  unfold CpuModel.behaviour
  rw [ht]
  exact h.calls n

/-! ## Reset and construction -/

/-- a model constructed with reset PC `p`, holding the memories of `s` -/
def renewed (s : CpuModel cfg) (p : BitVec 32) : CpuModel (cfg.startingAt p) :=
  { instructionMemory := s.instructionMemory, dataMemory := s.dataMemory, pc := p
    icache := .fresh s.icache.accepted, dcache := .fresh s.dcache.accepted }

/-- the constructor builds it, up to the contents of the memories -/
theorem renewed_eq (s : CpuModel cfg) (p : BitVec 32) :
    (construct (cfg.startingAt p)).map (fun t =>
      { t with instructionMemory := s.instructionMemory, dataMemory := s.dataMemory }) = .ok (s.renewed p) := by
  simp only [construct, DirectMappedCacheModel.configure_of_accepted s.icache.accepted,
    DirectMappedCacheModel.configure_of_accepted s.dcache.accepted]
  rfl

/-- a reset model and a constructed one differ in the fetch stream only -/
theorem twin_of_ifetch (s : CpuModel cfg) {p : BitVec 32} {t : CpuModel (cfg.startingAt p)}
    (ht : { t with ifetch := (s.renewed p).ifetch, dcacheOutcomes := (s.renewed p).dcacheOutcomes } = s.renewed p)
    (hf : cfg.icache.enabled = true → t.ifetch = s.ifetch.reset p) : Twin s.trace (s.reset p) t where
  instructionMemory := (congrArg CpuModel.instructionMemory ht).symm
  dataMemory := (congrArg CpuModel.dataMemory ht).symm
  regs := (congrArg CpuModel.regs ht).symm
  pc := (congrArg CpuModel.pc ht).symm
  halted := (congrArg CpuModel.halted ht).symm
  overlap := (congrArg CpuModel.cacheOverlapCycles ht).symm
  replays := (congrArg CpuModel.dcacheIfstallReplays ht).symm
  stats := (congrArg CpuModel.stats ht).symm
  timing := (congrArg CpuModel.timing ht).symm
  icache := (congrArg CpuModel.icache ht).symm
  dcache := (congrArg CpuModel.dcache ht).symm
  ifetch := fun hen => (hf hen).symm
  trace := by
    have htrace : t.trace = [] := congrArg CpuModel.trace ht
    rw [htrace, List.append_nil]
    rfl

/-- reset on both -/
theorem reset_twin (s : CpuModel cfg) (p : BitVec 32) : Twin s.trace (s.reset p) ((s.renewed p).reset p) :=
  twin_of_ifetch s rfl fun _ => rfl

/-- without reset on the constructed model, when its fetch pointer is not used or right -/
theorem renewed_twin (s : CpuModel cfg) {p : BitVec 32} (h : cfg.icache.enabled = false ∨ p = 0) :
    Twin s.trace (s.reset p) (s.renewed p) := by
  apply twin_of_ifetch s rfl
  intro hen
  rcases h with hno | rfl
  · rw [hen] at hno
    cases hno
  · rfl

/-! ## States of a lifetime -/

/-- the states of a model from its construction on, whatever is called on it -/
inductive Lived (cfg : CpuConfig) : CpuModel cfg → Prop where
  | construct {s : CpuModel cfg} (h : construct cfg = .ok s) : Lived cfg s
  | load {s : CpuModel cfg} (h : Lived cfg s) (program data : ℕ → BitVec 8) : Lived cfg (s.withImages program data)
  | reset {s : CpuModel cfg} (h : Lived cfg s) (pc : BitVec 32) : Lived cfg (s.reset pc)
  | ok {s t : CpuModel cfg} {b : Bool} (h : Lived cfg s) (hs : step s = .ok b t) : Lived cfg t
  | throw {s t : CpuModel cfg} {x : Exn} (h : Lived cfg s) (hs : step s = .throw x t) : Lived cfg t

theorem Lived.size {s : CpuModel cfg} (h : Lived cfg s) : s.instructionMemory.size = cfg.memorySize := by
  induction h with
  | construct h =>
    unfold CpuModel.construct at h
    cases hi : DirectMappedCacheModel.configure cfg.icache with
    | error x => rw [hi] at h; cases h
    | ok i =>
      cases hd : DirectMappedCacheModel.configure cfg.dcache with
      | error x => rw [hi, hd] at h; cases h
      | ok d =>
        rw [hi, hd] at h
        cases h
        simp [Memory.zeros, Memory.size]
  | load _ _ _ _ => exact Memory.ofImage_size _ _
  | reset _ _ ih => exact ih
  | ok _ hs ih =>
    apply step_inv (P := fun s => s.instructionMemory.size = cfg.memorySize) _ ih hs
    intro s t b w hs
    rw [w.after]
    exact hs
  | throw _ hs ih => rw [((step_throw (live_of_throw hs)).1 hs).frame.2.2.2.2]; exact ih

/-! ## When the fetch pointer is never used -/

/-- calls that throw and change nothing go on throwing -/
theorem calls_of_throw {s : CpuModel cfg} {x : Exn} (h : step s = .throw x s) (old n : ℕ) :
    s.calls old n = List.replicate n (.threw x) ++ [.read (s.view old)] := by
  induction n with
  | zero => rfl
  | succ n ih =>
    simp only [calls, h, ih]
    rfl

theorem calls_of_hang {s : CpuModel cfg} (h : step s = .diverge) (old n : ℕ) :
    s.calls old n = if n = 0 then [.read (s.view old)] else [.hung] := by
  cases n with
  | zero => rfl
  | succ n => simp [calls, h]

/-- before the first call, the reset model and the constructed one look alike -/
theorem view_renewed (s : CpuModel cfg) (p : BitVec 32) :
    (s.reset p).view (s.reset p).trace.length = (s.renewed p).view (s.renewed p).trace.length := by
  unfold view
  rw [List.drop_length, List.drop_length]
  rfl

/-- the fetch of the last word of the address space never returns -/
theorem step_top {s : CpuModel cfg} (hen : cfg.icache.enabled = true) (hrun : Running s) (hpc : s.pc = 0xfffffffc)
    (hnext : Aligned s.ifetch.nextSequentialPc) {insn : BitVec 32} (hf : s.instructionMemory.read32 s.pc = .ok insn) :
    step s = .diverge := by
  have hfront : front (FrontEnd.ensureThrough s.pc) s = (.diverge : Outcome Exn (CpuModel cfg) (BitVec 32)) := by
    have htop := FrontEnd.ensureThrough_top hen (f := ⟨s.ifetch, s.icache⟩) hnext
    rw [← hpc] at htop
    simp only [front, Exec.zoom, htop]
  have hhalted : ¬ s.halted = true := by simp [hrun.live]
  simp only [step, Exec.bind_apply, Exec.get_apply, Exec.andThen_ok]
  rw [if_neg hhalted]
  simp only [Exec.bind_apply, Exec.throwIf, if_neg (not_le.2 hrun.below), if_neg (not_not.2 hrun.aligned), ge_iff_le,
    Exec.pure_apply, Exec.andThen_ok, Exec.lift, hf, hfront, Exec.andThen_diverge]

end CpuModel

/-- the pointer that the constructor leaves at 0 is not used, right, or not reached by any instruction that returns -/
def CpuConfig.PointerHarmless (cfg : CpuConfig) (p : BitVec 32) : Prop :=
  cfg.icache.enabled = false ∨ p = 0 ∨ cfg.maxInstructions = 0 ∨ cfg.memorySize < p.toNat + 4 ∨ p = 0xfffffffc

namespace CpuModel

variable {cfg : CpuConfig} {p : BitVec 32}

/-- a harmless pointer does not show -/
theorem behaviour_of_harmless (hp : Aligned p) (h : cfg.PointerHarmless p) {s : CpuModel cfg} (hs : Lived cfg s)
    (n : ℕ) :
    (s.reset p).behaviour n = (s.renewed p).behaviour n := by
  have hview := view_renewed s p
  have hthrow : ∀ x, step (s.reset p) = .throw x (s.reset p) → step (s.renewed p) = .throw x (s.renewed p) →
      (s.reset p).behaviour n = (s.renewed p).behaviour n := by
    intro x hr hn
    unfold behaviour
    rw [calls_of_throw hr, calls_of_throw hn, hview]
  by_cases hmax : cfg.maxInstructions = 0
  · apply hthrow .maxInstructions
    · exact (step_throw rfl).2 (.limit (by rw [hmax]; exact Nat.zero_le _))
    · exact (step_throw rfl).2 (.limit (show cfg.maxInstructions ≤ _ by rw [hmax]; exact Nat.zero_le _))
  have hrun : Running (s.reset p) := ⟨rfl, Nat.pos_of_ne_zero hmax, aligned_iff.2 hp⟩
  have hrun' : Running (s.renewed p) := ⟨rfl, Nat.pos_of_ne_zero hmax, aligned_iff.2 hp⟩
  cases hf : s.instructionMemory.read32 p with
  | error x => exact hthrow x ((step_throw rfl).2 (.fetch hrun hf)) ((step_throw rfl).2 (.fetch hrun' hf))
  | ok insn =>
    have hbound := Memory.read32_ok_bound hf
    rw [hs.size] at hbound
    by_cases hen : cfg.icache.enabled = true
    · by_cases hzero : p = 0
      · exact (renewed_twin s (Or.inr hzero)).behaviour rfl n
      · have htop : p = 0xfffffffc := by
          rcases h with h | h | h | h | h
          · rw [hen] at h
            cases h
          · exact absurd h hzero
          · exact absurd h hmax
          · omega
          · exact h
        have hhang : step (s.reset p) = .diverge := step_top hen hrun htop hp hf
        have hhang' : step (s.renewed p) = .diverge := step_top hen hrun' htop rfl hf
        unfold behaviour
        rw [calls_of_hang hhang, calls_of_hang hhang', hview]
    · exact (renewed_twin s (Or.inl (by simpa using hen))).behaviour rfl n

/-! ## When it shows -/

/-- a FENCE whose fetch goes through n words counts n I-cache accesses -/
theorem step_fence {s : CpuModel cfg} (hen : cfg.icache.enabled = true) (hrun : Running s)
    (hempty : s.icache.contents = DirectMapped.empty) (hnext : Aligned s.ifetch.nextSequentialPc)
    (hbelow : s.pc.toNat + 4 < 2 ^ 32) {insn : BitVec 32} (hf : s.instructionMemory.read32 s.pc = .ok insn)
    (hfence : opcode insn = 0x0f) (htiming : s.timing = {}) : ∃ t, step s = .ok true t ∧
      t.stats.icacheAccesses = s.icache.stats.accesses + (through s.ifetch.nextSequentialPc s.pc).length := by
  have hclean : DirectMapped.Clean s.caches.frontEnd.icache.contents := by
    have hcontents : s.caches.frontEnd.icache.contents = DirectMapped.empty := hempty
    rw [hcontents]
    exact DirectMapped.clean_empty
  have hpass : s.caches.frontEnd.Passable s.pc := ⟨aligned_iff.1 hrun.aligned, hbelow, fun _ => hnext⟩
  obtain ⟨x, f, hdemand, hfetched, -⟩ := FrontEnd.ensureThrough_performs hpass hclean
  have heffect : effect s.dataMemory s.regs s.pc insn = .ok ⟨.alu, s.pc + 4, none, s.dataMemory⟩ := by
    simp only [effect, hfence]
  have hcharge := Caches.charge_ok.2 ⟨(⟨x, 0, 0, 0, f, f, f, hdemand, FrontEnd.onDcacheStall_zero _ _, rfl, rfl, rfl,
    rfl, rfl⟩ : Caches.Charged s.caches .alu s.pc (s.pc + 4) s.look _ _)⟩
  have hmore : true = !(s.retired insn ⟨.alu, s.pc + 4, none, s.dataMemory⟩ (x + 0 + s.caches.dstall .alu - 0 + 0)
      (((s.caches.accessed .alu).granted .alu 0).putFront f)).halted := by
    show true = !s.halted
    rw [hrun.live]
    rfl
  refine ⟨_, step_ok.2 (Or.inr ⟨⟨hrun, insn, _, _, _, hf, heffect, hcharge, hmore, rfl⟩⟩), ?_⟩
  have hdecode : PipelineTimingModel.decode insn = { rd := rd insn, rs1 := rs1 insn, rs2 := rs2 insn } := by
    simp [PipelineTimingModel.decode, hfence]
  have hreplays : ∀ n, holdReplays cfg 0 n = 0 := by
    intro n
    unfold holdReplays
    split_ifs <;> simp
  have hfirsts : s.caches.frontEnd.firsts s.pc = through s.ifetch.nextSequentialPc s.pc := if_pos hen
  have haccesses : f.icache.stats.accesses = s.icache.stats.accesses + _ := congrArg CacheStats.accesses hfetched.stats
  rw [hfirsts] at haccesses
  have hstalls : ∀ st taken, ((s.timing.addExternalStalls st).retire insn taken).2.stats.loadUseStalls +
      ((s.timing.addExternalStalls st).retire insn taken).2.stats.dividerStalls = 0 := by
    intro st taken
    rw [htiming]
    simp [PipelineTimingModel.retire, PipelineTimingModel.addExternalStalls, PipelineTimingModel.loadUseHazard, hdecode]
  show f.icache.stats.accesses + holdReplays cfg (_ + _) _ = _
  rw [hstalls, hreplays, haccesses, Nat.add_zero]

theorem through_length {next target : BitVec 32} (h : next ≤ target) :
    (through next target).length = (target.toNat - next.toNat) / 4 + 1 := by
  rw [through, if_pos h, sweep_length]

/-- the four bytes of a FENCE are the same, so it stands at every address of a memory of them -/
theorem read32_fence {n : ℕ} {a : BitVec 32} (h : a.toNat + 4 ≤ n) (hb : a.toNat + 4 ≤ 2 ^ 32) :
    (Memory.ofImage n fun _ => 0x0f).read32 a = .ok 0x0f0f0f0f := by
  have hbyte : ∀ b : BitVec 32, b.toNat < n → (Memory.ofImage n fun _ => 0x0f).byte b = 0x0f := by
    intro b hbn
    simp [Memory.byte, Memory.ofImage, hbn]
  have h1 : (a + 1).toNat = a.toNat + 1 := toNat_add_of_lt (by simp; omega)
  have h2 : (a + 2).toNat = a.toNat + 2 := toNat_add_of_lt (by simp; omega)
  have h3 : (a + 3).toNat = a.toNat + 3 := toNat_add_of_lt (by simp; omega)
  rw [Memory.read32_eq, if_neg (by rw [Memory.ofImage_size]; omega), hbyte a (by omega), hbyte (a + 1) (by omega),
    hbyte (a + 2) (by omega), hbyte (a + 3) (by omega)]
  rfl

/-- a constructed model that holds two images -/
def loaded (cfg : CpuConfig) (h : cfg.Accepted) (program data : ℕ → BitVec 8) : CpuModel cfg :=
  withImages { instructionMemory := Memory.zeros cfg.memorySize, dataMemory := Memory.zeros cfg.memorySize
               pc := cfg.resetPc, icache := .fresh h.icache, dcache := .fresh h.dcache } program data

theorem lived_loaded (h : cfg.Accepted) (program data : ℕ → BitVec 8) : Lived cfg (loaded cfg h program data) := by
  apply Lived.load
  apply Lived.construct
  simp only [construct, DirectMappedCacheModel.configure_of_accepted h.icache,
    DirectMappedCacheModel.configure_of_accepted h.dcache]
  rfl

/-- FENCE everywhere -/
def fences (cfg : CpuConfig) (h : cfg.Accepted) : CpuModel cfg := loaded cfg h (fun _ => 0x0f) fun _ => 0

/-- behaviours of one call that agree count the same I-cache accesses -/
theorem accesses_of_behaviour {cfg' : CpuConfig} {s t : CpuModel cfg} {s' t' : CpuModel cfg'} {b b' : Bool}
    (h : s.behaviour 1 = s'.behaviour 1) (hs : step s = .ok b t) (hs' : step s' = .ok b' t') :
    t.stats.icacheAccesses = t'.stats.icacheAccesses := by
  simp only [behaviour, calls, hs, hs', List.cons.injEq, Seen.read.injEq, View.mk.injEq, view] at h
  rw [h.2.1.1]

/-- **A harmful pointer shows** in the first call over FENCE instructions. -/
theorem harmless_of_behaviour (hcfg : cfg.Accepted) (hp : Aligned p)
    (h : ∀ s, Lived cfg s → ∀ n, (s.reset p).behaviour n = (s.renewed p).behaviour n) : cfg.PointerHarmless p := by
  unfold CpuConfig.PointerHarmless
  by_contra hno
  simp only [not_or, Bool.not_eq_false, not_lt] at hno
  obtain ⟨hen, hzero, hmax, hsize, htop⟩ := hno
  have hpos : p.toNat ≠ 0 := by
    intro h0
    apply hzero
    exact BitVec.eq_of_toNat_eq h0
  have hbelow : p.toNat + 4 < 2 ^ 32 := by
    have hlt := p.isLt
    have hne : p.toNat ≠ 0xfffffffc := by
      intro h0
      apply htop
      exact BitVec.eq_of_toNat_eq h0
    unfold Aligned at hp
    omega
  have hfetch : (fences cfg hcfg).instructionMemory.read32 p = .ok 0x0f0f0f0f := read32_fence hsize (by omega)
  have hrun : Running ((fences cfg hcfg).reset p) := ⟨rfl, Nat.pos_of_ne_zero hmax, aligned_iff.2 hp⟩
  have hrun' : Running ((fences cfg hcfg).renewed p) := ⟨rfl, Nat.pos_of_ne_zero hmax, aligned_iff.2 hp⟩
  have hempty := DirectMappedCacheModel.contents_reset (fences cfg hcfg).icache
  obtain ⟨t, ht, hcount⟩ := step_fence hen hrun hempty hp hbelow
    hfetch (by decide) rfl
  obtain ⟨t', ht', hcount'⟩ := step_fence (s := (fences cfg hcfg).renewed p) hen hrun'
    (DirectMappedCacheModel.contents_fresh hcfg.icache) rfl hbelow hfetch (by decide) rfl
  have hsame := accesses_of_behaviour (h _ (lived_loaded hcfg _ _) 1) ht ht'
  -- one access through p from p, and more than one from 0
  have hone :
      (through ((fences cfg hcfg).reset p).ifetch.nextSequentialPc ((fences cfg hcfg).reset p).pc).length = 1 := by
    have hlen := through_length (BitVec.le_refl p)
    rwa [Nat.sub_self, Nat.zero_div, Nat.zero_add] at hlen
  have hmany : (through ((fences cfg hcfg).renewed p).ifetch.nextSequentialPc ((fences cfg hcfg).renewed p).pc).length =
      p.toNat / 4 + 1 := by
    have hle : (0 : BitVec 32) ≤ p := by simp [BitVec.le_def]
    exact through_length hle
  have hzero' : ((fences cfg hcfg).reset p).icache.stats.accesses = 0 := rfl
  have hzero'' : ((fences cfg hcfg).renewed p).icache.stats.accesses = 0 := rfl
  rw [hcount, hcount', hone, hmany, hzero', hzero''] at hsame
  unfold Aligned at hp
  omega

end CpuModel

/-- **Reset against construction.** A model after `reset` behaves like a constructed model with the same memories that is
reset, for every number of calls. It behaves so like a constructed model that is not reset, for all memories and numbers
of calls, exactly when the constructor's fetch pointer is harmless. -/
theorem reset_matches_construction (cfg : CpuConfig) (h : cfg.Accepted) (p : BitVec 32) (hp : p &&& 3 = 0) :
    (∀ s, CpuModel.Lived cfg s → ∀ n, (s.reset p).behaviour n = ((s.renewed p).reset p).behaviour n) ∧
      ((∀ s, CpuModel.Lived cfg s → ∀ n, (s.reset p).behaviour n = (s.renewed p).behaviour n) ↔
        cfg.PointerHarmless p) := by
  refine ⟨?_, ?_, ?_⟩
  · intro s _ n
    exact (CpuModel.reset_twin s p).behaviour rfl n
  · exact CpuModel.harmless_of_behaviour h (aligned_iff.1 hp)
  · intro hharmless s hs n
    exact CpuModel.behaviour_of_harmless (aligned_iff.1 hp) hharmless hs n

/-- with split caches and reset PC 8, the constructed model needs the reset -/
theorem reset_matches_construction_splitCaches :
    ((CpuModel.fences splitCaches splitCaches_accepted).reset 8).behaviour 3 =
        (((CpuModel.fences splitCaches splitCaches_accepted).renewed 8).reset 8).behaviour 3 ∧
      ¬ ∀ s, CpuModel.Lived splitCaches s → ∀ n, (s.reset 8).behaviour n = (s.renewed 8).behaviour n := by
  obtain ⟨hreset, hiff⟩ := reset_matches_construction splitCaches splitCaches_accepted 8 (by decide)
  refine ⟨hreset _ (CpuModel.lived_loaded splitCaches_accepted _ _) 3, ?_⟩
  rw [hiff]
  unfold CpuConfig.PointerHarmless
  decide

/-- the cache workload from its third instruction -/
def thirdOfCacheTest : CpuModel splitCaches :=
  CpuModel.loaded splitCaches splitCaches_accepted (wordImage cacheTest) fun _ => 0

/-- the first call of the constructed model fetches the two words before the reset PC as well -/
theorem unreset_differs : CpuModel.Lived splitCaches thirdOfCacheTest ∧
    (thirdOfCacheTest.reset 8).behaviour 1 ≠ (thirdOfCacheTest.renewed 8).behaviour 1 := by
  refine ⟨CpuModel.lived_loaded splitCaches_accepted (wordImage cacheTest) fun _ => 0, ?_⟩
  intro h
  have hlast := congrArg (fun l => l.getLast?.map fun x => match x with
    | .read v => v.stats.icacheAccesses
    | _ => 0) h
  revert hlast
  decide +kernel

end Rv32im
