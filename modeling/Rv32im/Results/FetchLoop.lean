/-
When the fetch loop ends, and what it has requested then.

The loop of `ensure_through` compares a pointer that wraps at 2^32 with an inclusive bound. Below the last word of the
address space it requests every word from the pointer through the target once, whatever the I-cache holds. At the last
word no pointer exceeds the bound, and the loop does not end.

- `Exact`: the requests of one call, the accesses they make and the stall it returns.
- `ensureThrough_exact`: below the last word the call is exact, by induction on the iterations.
- `TopFetch`: an instruction that sends the fetch stream to the last word.
- `step_diverges_iff`: a step hangs at such an instruction and nowhere else.
- `fetch_loop_exact_iff`: both statements together.
-/
import Rv32im.Results.Exceptions
import Rv32im.Results.Replays

namespace Rv32im

namespace FrontEnd

open DirectMappedCacheModel

variable {icfg : CacheConfig} {f g k : FrontEnd {} icfg} {target pc x st : BitVec 32}

/-! ## One call -/

/-- the words of the requests from `next` through `target` -/
def words (next target : BitVec 32) : List (BitVec 32) :=
  if next ≤ target then (List.range ((target.toNat - next.toNat) / 4 + 1)).map fun i => next + BitVec.ofNat 32 (4 * i)
  else []

/-- the 32-bit sum of the stalls of a sequence of reads -/
def stallSum (c : DirectMappedCacheModel icfg) (reqs : List Request) : BitVec 32 :=
  ((c.reports (accesses reqs)).map CacheAccessResult.stallCycles).sum

/-- a call of `ensure_through` returns after one first-time request for each word from the pointer through the target,
and returns the sum of their stalls -/
def Exact (f : FrontEnd {} icfg) (target : BitVec 32) : Prop :=
  ∃ x g, ensureThrough target f = .ok x g ∧
    g.ifetch.requests = f.ifetch.requests ++ (words f.ifetch.nextSequentialPc target).map (⟨·, false⟩) ∧
    g.icache = f.icache.accessAll (accesses ((words f.ifetch.nextSequentialPc target).map (⟨·, false⟩))) ∧
    x = stallSum f.icache ((words f.ifetch.nextSequentialPc target).map (⟨·, false⟩))

theorem sweep_eq_map (next : BitVec 32) (n : ℕ) :
    sweep next n = (List.range n).map fun i => ⟨next + BitVec.ofNat 32 (4 * i), false⟩ := by
  induction n with
  | zero => rfl
  | succ n ih =>
    rw [sweep_append next n 1, ih, List.range_succ, List.map_append]
    rfl

theorem through_eq_words (next target : BitVec 32) : through next target = (words next target).map (⟨·, false⟩) := by
  unfold through words
  split_ifs
  · rw [sweep_eq_map, List.map_map]
    rfl
  · rfl

theorem stallSum_append (c : DirectMappedCacheModel icfg) (l l' : List Request) :
    stallSum c (l ++ l') = stallSum c l + stallSum (c.accessAll (accesses l)) l' := by
  have hmap : accesses (l ++ l') = accesses l ++ accesses l' := List.map_append
  rw [stallSum, hmap, reports_append, List.map_append, List.sum_append]
  rfl

/-- the loop with enough fuel over any I-cache, by induction on the fuel -/
theorem ensureLoop_exact (hen : icfg.enabled = true) (ht : Aligned target) (htop : target.toNat + 4 < 2 ^ 32)
    (fuel : ℕ) (st : BitVec 32) (hn : Aligned f.ifetch.nextSequentialPc)
    (hfuel : (target.toNat + 4 - f.ifetch.nextSequentialPc.toNat) / 4 < fuel) :
    ∃ g, ensureLoop target fuel st f = .ok (st + stallSum f.icache (through f.ifetch.nextSequentialPc target)) g ∧
      Answered f g (through f.ifetch.nextSequentialPc target) := by
  induction fuel generalizing f st with
  | zero => omega
  | succ fuel ih =>
    by_cases hle : f.ifetch.nextSequentialPc ≤ target
    · obtain ⟨k, hturn, hnext, hk⟩ := ensureLoop_answers hen hle fuel st
      obtain ⟨hthrough, -⟩ := through_cons hn ht hle htop
      have hle' : f.ifetch.nextSequentialPc.toNat ≤ target.toNat := hle
      have h4 : (f.ifetch.nextSequentialPc + 4).toNat = f.ifetch.nextSequentialPc.toNat + 4 :=
        toNat_add_of_lt (by simp; omega)
      obtain ⟨g, hloop, hg⟩ := ih (f := k) (st + (f.icache.access f.ifetch.nextSequentialPc false).1.stallCycles)
        (hnext ▸ hn.add aligned_four) (by rw [hnext, h4]; omega)
      rw [hnext] at hloop hg
      rw [hthrough]
      refine ⟨g, ?_, hk.trans hg⟩
      have hsum : stallSum f.icache (⟨f.ifetch.nextSequentialPc, false⟩ ::
          through (f.ifetch.nextSequentialPc + 4) target) =
          (f.icache.access f.ifetch.nextSequentialPc false).1.stallCycles +
            stallSum k.icache (through (f.ifetch.nextSequentialPc + 4) target) := by
        rw [← List.singleton_append, stallSum_append, ← hk.icache]
        congr 1
        simp [stallSum, accesses, reports]
      rw [hturn, hloop, hsum, BitVec.add_assoc]
    · have hnone : through f.ifetch.nextSequentialPc target = [] := if_neg hle
      rw [hnone, ensureLoop_end hle]
      refine ⟨f, ?_, .refl f⟩
      simp [stallSum, accesses, reports]

theorem ensureThrough_exact (hen : icfg.enabled = true) (hn : Aligned f.ifetch.nextSequentialPc) (ht : Aligned target)
    (htop : target ≠ 0xfffffffc) : Exact f target := by
  have hbelow := aligned_below ht htop
  obtain ⟨g, hloop, hg⟩ := ensureLoop_exact hen ht hbelow (2 ^ 30 + 1) 0 hn (by omega)
  rw [through_eq_words] at hloop hg
  refine ⟨_, g, ?_, hg.requests, hg.icache, rfl⟩
  have hal : ¬ target &&& 3 ≠ 0 := not_not.2 (aligned_iff.2 ht)
  simp only [ensureThrough, hen, Bool.not_true, Bool.false_eq_true, if_false, Exec.throwIf, if_neg hal]
  rw [pure_bind, hloop, zero_add]

/-- **The loop is exact** below the last word, and does not end there. -/
theorem exact_iff (hen : icfg.enabled = true) (hn : Aligned f.ifetch.nextSequentialPc) (ht : Aligned target) :
    Exact f target ↔ target ≠ 0xfffffffc := by
  refine ⟨?_, ensureThrough_exact hen hn ht⟩
  rintro ⟨x, g, hok, -⟩ rfl
  rw [ensureThrough_top hen hn] at hok
  cases hok

/-! ## The other calls -/

theorem ensureThrough_diverges (h : f.Sound) (ht : Aligned target) :
    ensureThrough target f = .diverge ↔ icfg.enabled = true ∧ target = 0xfffffffc := by
  cases hen : icfg.enabled with
  | false =>
    rw [ensureThrough_disabled hen]
    simp
  | true =>
    refine ⟨?_, ?_⟩
    · intro hdiverge
      by_contra htop
      obtain ⟨x, g, hok, -⟩ := ensureThrough_exact hen (h.next hen) ht fun heq => htop ⟨rfl, heq⟩
      rw [hdiverge] at hok
      cases hok
    · rintro ⟨-, rfl⟩
      exact ensureThrough_top hen (h.next hen)

theorem replayLoop_returns (pc : BitVec 32) (lookahead : Bool) (n : ℕ) (st : BitVec 32) (f : FrontEnd {} icfg) :
    replayLoop pc lookahead n st f ≠ .diverge := by
  induction n generalizing st f with
  | zero => nofun
  | succ n ih =>
    intro h
    rcases Exec.bind_diverge.1 h with hissue | ⟨a, k, -, hloop⟩
    · cases hissue
    · exact ih _ k hloop

/-- a run ahead and its replays end with the run ahead -/
theorem hold_diverges (h : f.Sound) (ht : Aligned target) (lookahead : Bool) (n : ℕ) :
    (do
      let stalls ← ensureThrough target
      replayLoop target lookahead n stalls : FetchM {} icfg (BitVec 32)) f = .diverge ↔
      icfg.enabled = true ∧ target = 0xfffffffc := by
  rw [Exec.bind_diverge, ensureThrough_diverges h ht]
  refine ⟨?_, Or.inl⟩
  rintro (htop | ⟨a, k, -, hloop⟩)
  · exact htop
  · exact absurd hloop (replayLoop_returns _ _ _ _ _)

theorem onDcacheStall_diverges (h : f.Sound) (ha : Aligned pc) (d : BitVec 32) :
    onDcacheStall pc d f = .diverge ↔ icfg.enabled = true ∧ d ≠ 0 ∧ pc + 12 = 0xfffffffc := by
  by_cases hgo : icfg.enabled = true ∧ d ≠ 0
  · rw [onDcacheStall_eq hgo.1 hgo.2, hold_diverges h (ha.add aligned_twelve)]
    exact ⟨fun ⟨hen, htop⟩ => ⟨hen, hgo.2, htop⟩, fun ⟨hen, _, htop⟩ => ⟨hen, htop⟩⟩
  · have hskip : (!icfg.enabled || decide (d = 0)) = true := by
      cases hen : icfg.enabled <;> simp_all
    unfold onDcacheStall
    rw [if_pos hskip]
    simp only [Exec.pure_apply, reduceCtorEq, false_iff]
    intro ⟨hen, hd, _⟩
    exact hgo ⟨hen, hd⟩

theorem redirect_diverges (h : f.Sound) (ha : Aligned pc) (nextPc : BitVec 32) :
    redirect 8 pc nextPc f = .diverge ↔ icfg.enabled = true ∧ pc + 8 = 0xfffffffc := by
  rw [← ensureThrough_diverges h (ha.add aligned_eight)]
  cases hen : icfg.enabled with
  | false =>
    rw [ensureThrough_disabled hen]
    simp only [redirect, hen]
    simp [Exec.bind_apply]
  | true =>
    simp only [redirect, hen, Bool.not_true, Bool.false_eq_true, if_false, Exec.bind_apply, Exec.get_apply,
      Exec.andThen_ok]
    cases ensureThrough (pc + 8) f with
    | ok x g =>
      have hreturns : ∀ t, (.ok x t : Outcome Exn (FrontEnd {} icfg) (BitVec 32)) ≠ .diverge := by simp
      exact iff_of_false (hreturns _) (hreturns g)
    | throw e g => simp
    | diverge => simp

theorem onSystemDrain_diverges (h : f.Sound) (ha : Aligned pc) :
    onSystemDrain pc f = .diverge ↔ icfg.enabled = true ∧ pc + 8 = 0xfffffffc := by
  cases hen : icfg.enabled with
  | false => simp [onSystemDrain, hen]
  | true =>
    rw [onSystemDrain_eq hen, hold_diverges h (ha.add aligned_eight)]
    simp [hen]

theorem controlCall_diverges (h : f.Sound) (ha : Aligned pc) (kind : Kind) (nextPc : BitVec 32) :
    Caches.controlCall icfg kind pc nextPc f = .diverge ↔
      icfg.enabled = true ∧ kind.redirects = true ∧ pc + 8 = 0xfffffffc := by
  have hredirect := redirect_diverges h ha nextPc
  have hdrain := onSystemDrain_diverges h ha
  cases kind with
  | branch taken =>
    cases taken with
    | true => exact hredirect.trans (by simp [Kind.redirects, Kind.jumps])
    | false => simp [Caches.controlCall, Kind.redirects, Kind.jumps]
  | jump => exact hredirect.trans (by simp [Kind.redirects, Kind.jumps])
  | system => exact hdrain.trans (by simp [Kind.redirects])
  | _ => simp [Caches.controlCall, Kind.redirects, Kind.jumps]

end FrontEnd

/-! ## One step -/

namespace Caches

variable {cfg : CpuConfig} {c : Caches cfg} {k : Kind} {pc nextPc : BitVec 32}
  {look : Except Exn (Option (BitVec 32))}

/-- **The cache side does not return** exactly where one of its stages reaches the last word. -/
theorem charge_diverges (h : c.frontEnd.Sound) (ha : Aligned pc) :
    charge k pc nextPc look c = .diverge ↔ cfg.icache.enabled = true ∧
      (pc = 0xfffffffc ∨ c.dstall k ≠ 0 ∧ pc + 12 = 0xfffffffc ∨ k.redirects = true ∧ pc + 8 = 0xfffffffc) := by
  have hdemand := FrontEnd.ensureThrough_diverges h ha
  simp only [charge, Exec.bind_diverge, memory_eq, control_eq, front_apply]
  cases hd : FrontEnd.ensureThrough pc c.frontEnd with
  | throw x f => exact absurd hd (FrontEnd.noThrow_ensureThrough ha _ x f)
  | diverge =>
    exact iff_of_true (by simp) ((hdemand.1 hd).imp_right Or.inl)
  | ok s₁ f₁ =>
    have h₁ := FrontEnd.ensureThrough_sound h ha hd
    have hahead := FrontEnd.onDcacheStall_diverges h₁ ha (c.dstall k)
    have hpc : ¬ (cfg.icache.enabled = true ∧ pc = 0xfffffffc) := by
      rw [← hdemand, hd]
      simp
    simp only [reduceCtorEq, Outcome.ok.injEq, false_or, exists_and_left, exists_eq_left', and_assoc,
      frontEnd_putFront, dstall_putFront]
    cases hs : FrontEnd.onDcacheStall pc (c.dstall k) f₁ with
    | throw x f => exact absurd hs (FrontEnd.noThrow_onDcacheStall (ha.add aligned_twelve) _ _ x f)
    | diverge =>
      exact iff_of_true (by simp) ((hahead.1 hs).imp_right fun h => Or.inr (Or.inl h))
    | ok s₂ f₂ =>
      have h₂ := FrontEnd.onDcacheStall_sound h₁ (ha.add aligned_twelve) hs
      have hcontrol := FrontEnd.controlCall_diverges h₂ ha k nextPc
      have hstall : ¬ (cfg.icache.enabled = true ∧ c.dstall k ≠ 0 ∧ pc + 12 = 0xfffffffc) := by
        rw [← hahead, hs]
        simp
      have hall : (cfg.icache.enabled = true ∧ (pc = 0xfffffffc ∨ c.dstall k ≠ 0 ∧ pc + 12 = 0xfffffffc ∨
          k.redirects = true ∧ pc + 8 = 0xfffffffc)) ↔
          FrontEnd.onDcacheStall pc (c.dstall k) f₁ = .diverge ∨ controlCall cfg.icache k pc nextPc f₂ = .diverge := by
        rw [hcontrol, hahead, and_or_left, or_iff_right hpc, and_or_left]
      rw [hall, hs]
      cases hq : lookFault k look (c.dstall k) s₂ with
      | some x =>
        -- a store makes no redirect
        have hk := (lookFault_some.1 hq).1
        have hnone : controlCall cfg.icache k pc nextPc f₂ ≠ .diverge := by
          cases k <;> simp_all [Kind.stores, controlCall]
        simp [hq, hnone]
      | none =>
        cases hc : controlCall cfg.icache k pc nextPc f₂ with
        | ok s₃ f₃ => simp [hq, granted_putFront, hc]
        | throw x f => simp [hq, granted_putFront, hc]
        | diverge => simp [hq, granted_putFront, hc]

end Caches

namespace CpuModel

variable {cfg : CpuConfig} {s : CpuModel cfg}

/-- the instruction at the pc sends the fetch stream to the last word of the address space: its own fetch, the run ahead
of its D-cache stall, or the fetches behind its redirect or drain -/
structure TopFetch (s : CpuModel cfg) : Prop where
  running : Running s
  enabled : cfg.icache.enabled = true
  inside : s.pc.toNat + 4 ≤ cfg.memorySize
  reaches : s.pc = 0xfffffffc ∨ ∃ insn e, s.instructionMemory.read32 s.pc = .ok insn ∧
    effect s.dataMemory s.regs s.pc insn = .ok e ∧
    (s.pc = 0xfffffff0 ∧ s.caches.dstall e.kind ≠ 0 ∨ s.pc = 0xfffffff4 ∧ e.kind.redirects = true)

/-- behind the demand fetch, an instruction does not return exactly where its cache side does not -/
theorem afterFetch_diverges {insn st : BitVec 32} : afterFetch s.pc insn st s = .diverge ↔
    ∃ e, effect s.dataMemory s.regs s.pc insn = .ok e ∧ (do
      let stalls ← Caches.memory e.kind s.pc s.look st
      Caches.control e.kind s.pc e.nextPc stalls : Caches.M cfg (BitVec 32)) s.caches = .diverge := by
  rw [afterFetch, Exec.bind_apply, execute_eq, switched]
  cases effect s.dataMemory s.regs s.pc insn with
  | error x => simp
  | ok e =>
    simp only [Except.ok.injEq, exists_eq_left', Exec.bind_apply]
    cases Caches.memory e.kind s.pc s.look st s.caches with
    | throw x c => simp
    | diverge => simp
    | ok st' c =>
      simp only [Exec.andThen_ok, Exec.bind_apply, Exec.modify_apply, redirects_eq, onCaches, Exec.zoom]
      rw [Effect.locals_nextPc, executed_caches]
      cases Caches.control e.kind s.pc e.nextPc st' c with
      | ok a d => simp [retire]
      | throw x d => simp
      | diverge => simp

/-- a live step does not return exactly where its fetch or its cache side does not -/
theorem step_diverges : step s = .diverge ↔ Running s ∧ ∃ insn, s.instructionMemory.read32 s.pc = .ok insn ∧
    (FrontEnd.ensureThrough s.pc s.caches.frontEnd = .diverge ∨ ∃ e,
      effect s.dataMemory s.regs s.pc insn = .ok e ∧
        Caches.charge e.kind s.pc e.nextPc s.look s.caches = .diverge) := by
  by_cases hh : s.halted = true
  · rw [step_of_halted hh]
    refine iff_of_false (by simp) ?_
    rintro ⟨hrun, -⟩
    rw [hrun.live] at hh
    cases hh
  simp only [step, Exec.bind_apply, Exec.get_apply, Exec.andThen_ok]
  rw [if_neg hh]
  simp only [Exec.bind_diverge, Exec.throwIf_diverge, Exec.throwIf_ok, Exec.lift_diverge, Exec.lift_ok, front_eq,
    false_or]
  refine ⟨?_, ?_⟩
  · rintro ⟨_, _, ⟨hmax, rfl⟩, _, _, ⟨hal, rfl⟩, insn, _, ⟨hf, rfl⟩, hhang⟩
    refine ⟨⟨by simpa using hh, not_le.1 hmax, not_not.1 hal⟩, insn, hf, ?_⟩
    rcases hhang with hdemand | ⟨st, u, hdemand, hrest⟩
    · exact Or.inl (Exec.zoom_diverge.1 (Exec.zoom_diverge.1 hdemand))
    · obtain ⟨c, hc, rfl⟩ := Exec.zoom_ok.1 hdemand
      obtain ⟨e, he, hcharge⟩ := (afterFetch_diverges (s := s.putCaches c)).1 hrest
      exact Or.inr ⟨e, he, Exec.bind_diverge.2 (Or.inr ⟨st, c, hc, hcharge⟩)⟩
  · rintro ⟨hrun, insn, hf, hhang⟩
    refine ⟨(), s, ⟨not_le.2 hrun.below, rfl⟩, (), s, ⟨not_not.2 hrun.aligned, rfl⟩, insn, s, ⟨hf, rfl⟩, ?_⟩
    have hdiverge : FrontEnd.ensureThrough s.pc s.caches.frontEnd = .diverge →
        onCaches (Caches.front (FrontEnd.ensureThrough s.pc)) s = .diverge := fun h =>
      Exec.zoom_diverge.2 (Exec.zoom_diverge.2 h)
    rcases hhang with hdemand | ⟨e, he, hcharge⟩
    · exact Or.inl (hdiverge hdemand)
    · rcases Exec.bind_diverge.1 hcharge with hdemand | ⟨st, c, hc, hrest⟩
      · exact Or.inl (hdiverge (Exec.zoom_diverge.1 hdemand))
      · exact Or.inr ⟨st, s.putCaches c, Exec.zoom_ok.2 ⟨c, hc, rfl⟩,
          (afterFetch_diverges (s := s.putCaches c)).2 ⟨e, he, hrest⟩⟩

/-- **A step hangs** exactly at an instruction that reaches the last word. -/
theorem step_diverges_iff (hs : s.Sound) : step s = .diverge ↔ TopFetch s := by
  rw [step_diverges]
  have h12 : ∀ p : BitVec 32, p + 12 = 0xfffffffc ↔ p = 0xfffffff0 := by
    intro p
    bv_omega
  have h8 : ∀ p : BitVec 32, p + 8 = 0xfffffffc ↔ p = 0xfffffff4 := by
    intro p
    bv_omega
  have hsize := hs.code
  refine ⟨?_, ?_⟩
  · intro ⟨hrun, insn, hf, hhang⟩
    have ha := aligned_iff.1 hrun.aligned
    have hin := Memory.read32_ok_bound hf
    rw [hs.code] at hin
    rcases hhang with hdemand | ⟨e, he, hcharge⟩
    · obtain ⟨hen, htop⟩ := (FrontEnd.ensureThrough_diverges (hs.frontEnd ha) ha).1 hdemand
      exact ⟨hrun, hen, hin, Or.inl htop⟩
    · obtain ⟨hen, hreach⟩ := (Caches.charge_diverges (hs.frontEnd ha) ha).1 hcharge
      refine ⟨hrun, hen, hin, hreach.imp_right fun hreach => ⟨insn, e, hf, he, ?_⟩⟩
      rw [h12, h8] at hreach
      exact hreach.imp (fun h => ⟨h.2, h.1⟩) fun h => ⟨h.2, h.1⟩
  · intro h
    have ha := aligned_iff.1 h.running.aligned
    refine ⟨h.running, ?_⟩
    rcases h.reaches with htop | ⟨insn, e, hf, he, hreach⟩
    · obtain ⟨insn, hf⟩ := Memory.read32_isOk (hs.code.symm ▸ h.inside)
      exact ⟨insn, hf, Or.inl ((FrontEnd.ensureThrough_diverges (hs.frontEnd ha) ha).2 ⟨h.enabled, htop⟩)⟩
    · refine ⟨insn, hf, Or.inr ⟨e, he, (Caches.charge_diverges (hs.frontEnd ha) ha).2 ⟨h.enabled, Or.inr ?_⟩⟩⟩
      rw [h12, h8]
      exact hreach.imp (fun h => ⟨h.2, h.1⟩) fun h => ⟨h.2, h.1⟩

end CpuModel

/-- **When the fetch loop ends.** Over any enabled I-cache, a call with a word-aligned pointer and target is exact if and
only if the target is not the last word of the address space. In every state that calls can reach, a step hangs exactly
at an instruction that sends the fetch stream there. -/
theorem fetch_loop_exact_iff (icfg : CacheConfig) (cfg : CpuConfig) (h : cfg.Accepted) :
    (∀ (f : FrontEnd {} icfg) (target : BitVec 32), icfg.enabled = true →
      f.ifetch.nextSequentialPc &&& 3 = 0 → target &&& 3 = 0 → (f.Exact target ↔ target ≠ 0xfffffffc)) ∧
    ∀ (program data : ℕ → BitVec 8) (pc : BitVec 32) (s : CpuModel cfg),
      Exec.Called CpuModel.step (boot cfg h program data pc) s → (CpuModel.step s ≠ .diverge ↔ ¬ s.TopFetch) := by
  refine ⟨?_, ?_⟩
  · intro f target hen hn ht
    exact FrontEnd.exact_iff hen (aligned_iff.1 hn) (aligned_iff.1 ht)
  · intro program data pc s hs
    exact not_congr (CpuModel.step_diverges_iff (CpuModel.called_sound (CpuModel.sound_boot h program data pc) hs))

theorem fetch_loop_exact_iff_storeThenJump :
    storeThenJumpBoot.caches.frontEnd.Exact 8 ∧ CpuModel.step storeThenJumpBoot ≠ .diverge := by
  obtain ⟨hcall, hstep⟩ := fetch_loop_exact_iff splitCaches.icache splitCaches splitCaches_accepted
  refine ⟨(hcall _ 8 rfl rfl rfl).2 (by decide), (hstep (wordImage storeThenJump) 0 0 _ .start).2 ?_⟩
  intro htop
  have hpc : storeThenJumpBoot.pc = 0 := rfl
  rcases htop.reaches with h | ⟨insn, e, -, -, ⟨h, -⟩ | ⟨h, -⟩⟩
  all_goals exact absurd (hpc.symm.trans h) (by decide)

/-- an I-cache over a memory that fills the address space -/
def fullMemory : CpuConfig where
  memorySize := 2 ^ 32
  icache := { enabled := true, lines := 4 }

theorem fullMemory_accepted : fullMemory.Accepted := ⟨⟨by decide, rfl⟩, ⟨by decide, rfl⟩⟩

/-- reset to the last word of memory -/
def fullMemoryBoot : CpuModel fullMemory := boot fullMemory fullMemory_accepted 0 0 0xfffffffc

/-- the pointer starts at the last word, so the demand fetch does not end, nor does the step -/
theorem fetch_loop_hangs : ¬ fullMemoryBoot.caches.frontEnd.Exact 0xfffffffc ∧
    CpuModel.step fullMemoryBoot = .diverge := by
  have hdemand : FrontEnd.ensureThrough 0xfffffffc fullMemoryBoot.caches.frontEnd = .diverge :=
    FrontEnd.ensureThrough_top rfl rfl
  refine ⟨?_, ?_⟩
  · intro ⟨x, g, hok, _⟩
    rw [hdemand] at hok
    cases hok
  · have hsize : fullMemoryBoot.instructionMemory.size = 2 ^ 32 := Memory.ofImage_size _ _
    have hlast : (0xfffffffc : BitVec 32).toNat + 4 ≤ fullMemoryBoot.instructionMemory.size := by
      rw [hsize]
      decide
    obtain ⟨insn, hf⟩ := Memory.read32_isOk hlast
    exact CpuModel.step_diverges.2 ⟨⟨rfl, by decide, rfl⟩, insn, hf, Or.inl hdemand⟩

end Rv32im
