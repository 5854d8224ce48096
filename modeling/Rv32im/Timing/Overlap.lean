/-
The three fetch stages of one instruction, the credit of its overlap rule, and two models that keep step.

- `CacheConfig.demand`, `ahead`, `tail`: the first-time requests of the three stages, from the pc and the lead.
- `Charged.staged`: each stage serves its requests. `Charged.icache`: the I-cache after all three.
- `Earns`: what the overlap rule looks for, in terms of the contents of the caches. `credit_iff`,
  `credit_of_earns`: the credit is granted exactly then, and it is the shorter of the D-cache tail and one I-cache
  refill.
- `InStep`: two models that have computed the same, with equal D-cache contents and equal leads. `Stepped.inStep`: one
  step of each keeps it, for configurations that differ in latencies and I-cache lines only.
- `halts_iff`: a run halts over all caches or over none.
- `Stepped.look_after`, `Stepped.foreseen`: the look-ahead behind a store stays, and the next instruction is the redirect
  that it found.
-/
import Rv32im.Timing.Invariant

namespace Rv32im

open FrontEnd

/-! ## The requests of the stages -/

namespace CacheConfig

variable (icfg : CacheConfig)

/-- the demand fetch of an instruction at `pc` with lead j -/
def demand (pc : BitVec 32) (j : ℕ) : List Request := icfg.fetches (pc + BitVec.ofNat 32 (4 * j)) (1 - j)

/-- the look-ahead behind its D-cache stall `d` -/
def ahead (pc : BitVec 32) (j : ℕ) (d : BitVec 32) : List Request :=
  icfg.fetches (pc + BitVec.ofNat 32 (4 * max j 1)) (if d = 0 then 0 else 4 - max j 1)

/-- the wrong path or drain behind it -/
def tail (k : Kind) (pc : BitVec 32) (j : ℕ) : List Request :=
  icfg.fetches (pc + BitVec.ofNat 32 (4 * max j 1)) (if k.redirects then 3 - max j 1 else 0)

theorem demand_of_lead (pc : BitVec 32) {j : ℕ} (h : 0 < j) : icfg.demand pc j = [] := by
  rw [demand, show 1 - j = 0 by omega, fetches_zero]

theorem demand_zero (h : icfg.enabled = true) (pc : BitVec 32) : icfg.demand pc 0 = [⟨pc, false⟩] := by
  simp [demand, fetches, h, sweep]

theorem ahead_zero (pc : BitVec 32) (j : ℕ) : icfg.ahead pc j 0 = [] := by
  rw [ahead, if_pos rfl, fetches_zero]

variable {icfg} {icfg' : CacheConfig}

theorem fetches_congr (h : icfg.enabled = icfg'.enabled) : icfg.fetches = icfg'.fetches := by
  funext next n
  simp only [fetches, h]

theorem ahead_congr (h : icfg.enabled = icfg'.enabled) (pc : BitVec 32) (j : ℕ) {d d' : BitVec 32}
    (hd : d = 0 ↔ d' = 0) : icfg.ahead pc j d = icfg'.ahead pc j d' := by
  simp only [ahead, fetches_congr h, hd]

end CacheConfig

namespace Kind

variable (k : Kind) (j : ℕ) {d d' : BitVec 32}

theorem leadAfter_congr (h : d = 0 ↔ d' = 0) : k.leadAfter j d = k.leadAfter j d' := by
  simp only [leadAfter, h]

end Kind

/-- the requests of a stage, from the pc instead of the pointer -/
theorem FrontEnd.Lead.fetches_eq {icfg : CacheConfig} {f : FrontEnd {} icfg} {pc : BitVec 32} {j : ℕ}
    (h : Lead f pc j) (hb : pc.toNat + 4 * j < 2 ^ 32) (n : ℕ) :
    icfg.fetches f.ifetch.nextSequentialPc n = icfg.fetches (pc + BitVec.ofNat 32 (4 * j)) n := by
  unfold CacheConfig.fetches
  split_ifs with hen
  · have hlt : (BitVec.ofNat 32 (4 * j)).toNat = 4 * j := by rw [BitVec.toNat_ofNat]; omega
    have hnext : f.ifetch.nextSequentialPc = pc + BitVec.ofNat 32 (4 * j) := by
      refine BitVec.eq_of_toNat_eq ?_
      rw [h.next hen, toNat_add_of_lt (by rw [hlt]; omega), hlt]
    rw [hnext]
  · rfl

namespace Caches

variable {cfg : CpuConfig} {c c' : Caches cfg} {k : Kind} {pc nextPc st : BitVec 32}
  {look : Except Exn (Option (BitVec 32))} {j : ℕ}

/-! ## The stages of one instruction -/

/-- **Each stage serves its requests.** -/
theorem Charged.staged (w : Charged c k pc nextPc look st c') (h : Lead c.frontEnd pc j) (hj : j ≤ 3) (hp : Placed pc) :
    Served c.frontEnd w.f₁ (cfg.icache.demand pc j) 0 w.s₁ ∧
      Served w.f₁ w.f₂ (cfg.icache.ahead pc j (c.dstall k))
        (if cfg.icache.enabled then (c.dstall k).toNat else 0) w.s₂ ∧
      Served w.f₂ c'.frontEnd (cfg.icache.tail k pc j) (drains cfg.icache k) w.s₃ := by
  have hbelow := hp.below
  obtain ⟨hs₁, hl₁⟩ := w.demand_served h hp
  obtain ⟨hs₂, hl₂⟩ := w.ahead_served hl₁ (by omega) hp
  obtain ⟨s, g, hok, hs₃, -⟩ := control_ok hl₂ (lead_le_of_redirects (k := k) c hj) hp nextPc
  obtain ⟨rfl, rfl⟩ := Outcome.ok.inj (hok.symm.trans w.control)
  rw [w.front]
  refine ⟨?_, ?_, ?_⟩
  · have hfirst : cfg.icache.fetches c.ifetch.nextSequentialPc (1 - j) = cfg.icache.demand pc j :=
      h.fetches_eq (by omega) _
    rwa [hfirst] at hs₁
  · rwa [hl₁.fetches_eq (by omega)] at hs₂
  · unfold CacheConfig.tail
    by_cases hr : k.redirects = true
    · have hd : c.dstall k = 0 := by
        by_contra hd
        rw [redirects_of_dstall c k hd] at hr
        cases hr
      rw [if_pos hr] at hs₃ ⊢
      rw [if_pos hd] at hs₃ hl₂
      rwa [hl₂.fetches_eq (by omega)] at hs₃
    · rw [if_neg hr] at hs₃ ⊢
      rwa [CacheConfig.fetches_zero] at hs₃ ⊢

/-! ## The credit -/

/-- the I-cache contents behind the demand fetch -/
def behindDemand (c : Caches cfg) (pc : BitVec 32) (j : ℕ) : DirectMapped.Store ℕ ℕ :=
  DirectMapped.readAll cfg.icache.idx c.icache.contents (blocks (cfg.icache.demand pc j))

/-- the misses of the demand fetch -/
def demandMisses (c : Caches cfg) (pc : BitVec 32) (j : ℕ) : ℕ :=
  DirectMapped.misses cfg.icache.idx c.icache.contents (blocks (cfg.icache.demand pc j))

/-- the misses of the look-ahead -/
def aheadMisses (c : Caches cfg) (k : Kind) (pc : BitVec 32) (j : ℕ) : ℕ :=
  DirectMapped.misses cfg.icache.idx (c.behindDemand pc j) (blocks (cfg.icache.ahead pc j (c.dstall k)))

/-- the I-cache contents behind the look-ahead -/
def behindAhead (c : Caches cfg) (k : Kind) (pc : BitVec 32) (j : ℕ) : DirectMapped.Store ℕ ℕ :=
  DirectMapped.readAll cfg.icache.idx (c.behindDemand pc j) (blocks (cfg.icache.ahead pc j (c.dstall k)))

/-- the misses of the wrong path or drain -/
def tailMisses (c : Caches cfg) (k : Kind) (pc : BitVec 32) (j : ℕ) : ℕ :=
  DirectMapped.misses cfg.icache.idx (c.behindAhead k pc j) (blocks (cfg.icache.tail k pc j))

/-- an instruction with three words ahead and no D-cache stall fetches nothing -/
theorem idle (c : Caches cfg) {k : Kind} (hd : c.dstall k = 0) (pc : BitVec 32) :
    c.demandMisses pc 3 = 0 ∧ c.aheadMisses k pc 3 = 0 ∧ c.tailMisses k pc 3 = 0 ∧
      DirectMapped.readAll cfg.icache.idx (c.behindAhead k pc 3) (blocks (cfg.icache.tail k pc 3)) =
        c.icache.contents := by
  have hdemand : cfg.icache.demand pc 3 = [] := cfg.icache.demand_of_lead pc (by decide)
  have hahead : cfg.icache.ahead pc 3 (c.dstall k) = [] := by rw [hd, CacheConfig.ahead_zero]
  have htail : cfg.icache.tail k pc 3 = [] := by simp [CacheConfig.tail]
  simp [demandMisses, aheadMisses, tailMisses, behindAhead, behindDemand, hdemand, hahead, htail]

/-- a store that misses while its look-ahead misses, in front of a redirect to a word that is absent -/
def Earns (c : Caches cfg) (k : Kind) (pc : BitVec 32) (look : Except Exn (Option (BitVec 32))) (j : ℕ) : Prop :=
  ∃ a target, k = .store a ∧ look = .ok (some target) ∧ c.dstall k ≠ 0 ∧ c.aheadMisses k pc j ≠ 0 ∧
    ¬ DirectMapped.Resident cfg.icache.idx (c.behindAhead k pc j) (block target)

/-- an access that stalls misses in an enabled cache -/
theorem enabled_of_dstall (h : c.dstall k ≠ 0) : cfg.dcache.enabled = true := by
  by_contra hen
  rw [dstall_eq] at h
  cases hm : k.mem with
  | none => simp [hm] at h
  | some m => simp [hm, CacheConfig.outcome, hen] at h

theorem enabled_of_aheadMisses (h : c.aheadMisses k pc j ≠ 0) : cfg.icache.enabled = true := by
  by_contra hen
  simp [aheadMisses, CacheConfig.ahead, CacheConfig.fetches, hen] at h

/-- a stalled access stalls for a clean miss at least -/
theorem dstall_pos (hd : 2 * cfg.dcache.memoryLatency.toNat + 7 < 2 ^ 32) (h : c.dstall k ≠ 0) :
    cfg.dcache.memoryLatency.toNat + 4 ≤ (c.dstall k).toNat := by
  rw [dstall_eq] at h ⊢
  cases hm : k.mem with
  | none => simp [hm] at h
  | some m =>
    simp only [hm] at h
    have hmiss : (cfg.dcache.outcome c.dcache.contents m.1).miss = true := by
      rwa [ne_eq, CacheConfig.outcome_stall_zero hd, Bool.not_eq_false] at h
    simp only [CacheConfig.outcome_stall hd, hmiss, if_true]
    omega

variable (w : Charged c k pc nextPc look st c')

/-- the look-ahead starts behind the demand fetch -/
theorem Charged.ahead_misses (h : Lead c.frontEnd pc j) (hj : j ≤ 3) (hp : Placed pc) :
    w.f₁.misses (cfg.icache.ahead pc j (c.dstall k)) = c.aheadMisses k pc j := by
  obtain ⟨hs, -, -⟩ := w.staged h hj hp
  unfold FrontEnd.misses aheadMisses behindDemand
  rw [hs.contents]
  rfl

theorem Charged.ahead_contents (h : Lead c.frontEnd pc j) (hj : j ≤ 3) (hp : Placed pc) :
    w.f₂.icache.contents = c.behindAhead k pc j := by
  obtain ⟨hs₁, hs₂, -⟩ := w.staged h hj hp
  rw [hs₂.contents, hs₁.contents]
  rfl

include w in
/-- the I-cache after the instruction -/
theorem Charged.icache (h : Lead c.frontEnd pc j) (hj : j ≤ 3) (hp : Placed pc) :
    c'.icache.contents = DirectMapped.readAll cfg.icache.idx (c.behindAhead k pc j)
      (blocks (cfg.icache.tail k pc j)) ∧
      c'.icache.stats.misses =
        c.icache.stats.misses + (c.demandMisses pc j + c.aheadMisses k pc j + c.tailMisses k pc j) := by
  obtain ⟨hs₁, hs₂, hs₃⟩ := w.staged h hj hp
  have hahead := w.ahead_misses h hj hp
  have hcontents := w.ahead_contents h hj hp
  have htail : w.f₂.misses (cfg.icache.tail k pc j) = c.tailMisses k pc j := by
    unfold FrontEnd.misses tailMisses
    rw [← hcontents]
  have h₁ : w.f₁.icache.stats.misses = c.icache.stats.misses + _ := congrArg CacheStats.misses hs₁.stats
  have h₂ : w.f₂.icache.stats.misses = w.f₁.icache.stats.misses + _ := congrArg CacheStats.misses hs₂.stats
  have h₃ : c'.icache.stats.misses = w.f₂.icache.stats.misses + _ := congrArg CacheStats.misses hs₃.stats
  refine ⟨?_, ?_⟩
  · rw [← hcontents]
    exact hs₃.contents
  · have hdemand : c.frontEnd.misses (cfg.icache.demand pc j) = c.demandMisses pc j := rfl
    omega

/-- the 32-bit stall of the look-ahead is zero only without misses -/
theorem Charged.ahead_stall (hsmall : cfg.Small) (h : Lead c.frontEnd pc j) (hj : j ≤ 3) (hp : Placed pc) :
    w.s₂ ≠ 0 ↔ c.aheadMisses k pc j ≠ 0 := by
  obtain ⟨-, hs, -⟩ := w.staged h hj hp
  have hmisses := w.ahead_misses h hj hp
  have hpenalty := hsmall.penalty
  unfold CpuConfig.Small at hsmall
  have hle : c.aheadMisses k pc j ≤ 4 := by
    rw [← hmisses]
    refine (w.f₁.misses_le _).trans ((cfg.icache.fetches_length_le _ _).trans ?_)
    split_ifs <;> omega
  have hmul : c.aheadMisses k pc j * cfg.icache.penalty < 2 ^ 32 := by
    refine lt_of_le_of_lt (Nat.mul_le_mul_right _ hle) ?_
    rw [hpenalty]
    omega
  have hval : w.s₂.toNat = c.aheadMisses k pc j * cfg.icache.penalty := by
    rw [hs.stalls, hmisses, BitVec.toNat_ofNat, Nat.mod_eq_of_lt hmul]
  have hpos : cfg.icache.penalty ≠ 0 := by omega
  rw [not_iff_not, ← BitVec.toNat_inj, hval]
  simp [hpos]

/-- the credit that the overlap rule grants: the D-cache tail or one refill, whichever is shorter -/
theorem Charged.credit_of_earns (hsmall : cfg.Small) (h : Lead c.frontEnd pc j) (hj : j ≤ 3) (hp : Placed pc)
    (he : Earns c k pc look j) : w.credit.toNat = min ((c.dstall k).toNat - 1) cfg.icache.penalty := by
  have hstall := w.ahead_stall hsmall h hj hp
  have hcontents := w.ahead_contents h hj hp
  obtain ⟨a, target, hk, hlook, hd, hahead, hres⟩ := he
  have hien := enabled_of_aheadMisses hahead
  have hhit : w.f₂.icache.wouldHit target = false := by
    rw [← Bool.not_eq_true, DirectMappedCacheModel.wouldHit_enabled hien, hcontents]
    exact hres
  have hcredit := creditOf_store hk hlook hd (hstall.2 hahead) hhit
  rw [w.credited, hcredit, cacheOverlapCredit_toNat hien (enabled_of_dstall hd)]

/-- **The credit is granted** exactly when the overlap rule finds what it looks for. -/
theorem Charged.credit_iff (hsmall : cfg.Small) (h : Lead c.frontEnd pc j) (hj : j ≤ 3) (hp : Placed pc) :
    w.credit ≠ 0 ↔ Earns c k pc look j := by
  refine ⟨?_, ?_⟩
  · intro hne
    have hne' := w.credited ▸ hne
    obtain ⟨a, target, hk, hlook, hd, hf, hw, -⟩ := creditOf_ne_zero hne'
    have hahead := (w.ahead_stall hsmall h hj hp).1 hf
    refine ⟨a, target, hk, hlook, hd, hahead, ?_⟩
    rw [← w.ahead_contents h hj hp, ← DirectMappedCacheModel.wouldHit_enabled (enabled_of_aheadMisses hahead),
      Bool.not_eq_true]
    exact hw
  · intro he h0
    have hval := w.credit_of_earns hsmall h hj hp he
    obtain ⟨a, target, -, -, hd, -, -⟩ := he
    have hpos := dstall_pos (c := c) (k := k) hsmall.data hd
    have hpenalty := hsmall.penalty
    rw [h0] at hval
    simp only [BitVec.toNat_zero, BitVec.ofNat_eq_ofNat] at hval
    omega

/-- a credit comes with the replay of its store -/
theorem Charged.replay_earned (hsmall : cfg.Small) (h : Lead c.frontEnd pc j) (hj : j ≤ 3) (hp : Placed pc)
    (he : Earns c k pc look j) : w.replay = 1 := if_neg ((w.credit_iff hsmall h hj hp).2 he)

theorem Charged.replay_unearned (hsmall : cfg.Small) (h : Lead c.frontEnd pc j) (hj : j ≤ 3) (hp : Placed pc)
    (he : ¬ Earns c k pc look j) : w.credit = 0 ∧ w.replay = 0 := by
  have hnone : w.credit = 0 := by
    by_contra hne
    exact he ((w.credit_iff hsmall h hj hp).1 hne)
  exact ⟨hnone, if_pos hnone⟩

/-- the credit of a store, by its victim -/
theorem Charged.credit_of_victim (hsmall : cfg.Small) (h : Lead c.frontEnd pc j) (hj : j ≤ 3) (hp : Placed pc)
    (he : Earns c k pc look j) : ∃ a, k = .store a ∧ w.credit.toNat =
      min (cfg.dcache.memoryLatency.toNat + 3 +
        if (cfg.dcache.outcome c.dcache.contents a).writeback then cfg.dcache.memoryLatency.toNat + 3 else 0)
        (cfg.icache.memoryLatency.toNat + 4) := by
  have hcredit := w.credit_of_earns hsmall h hj hp he
  obtain ⟨a, target, rfl, -, hd, -, -⟩ := he
  have hlat := hsmall.data
  have hstall : c.dstall (.store a) = (cfg.dcache.outcome c.dcache.contents a).stallCycles := dstall_eq c (.store a)
  rw [hstall] at hd hcredit
  have hmiss : (cfg.dcache.outcome c.dcache.contents a).miss = true := by
    rwa [ne_eq, CacheConfig.outcome_stall_zero hlat, Bool.not_eq_false] at hd
  have hval := CacheConfig.outcome_stall hlat c.dcache.contents a
  rw [hmiss, if_pos rfl] at hval
  refine ⟨a, rfl, ?_⟩
  rw [hcredit, hsmall.penalty, hval]
  congr 1
  omega

end Caches

/-! ## Two models that keep step -/

/-- two configurations that differ in latencies and I-cache lines only -/
structure CpuConfig.Alike (cfg cfg' : CpuConfig) : Prop where
  memory : cfg.memorySize = cfg'.memorySize
  icache : cfg.icache.enabled = cfg'.icache.enabled
  dcache : cfg.dcache.enabled = cfg'.dcache.enabled
  dlines : cfg.dcache.lines = cfg'.dcache.lines
  writeBack : cfg.dcache.writeBack = cfg'.dcache.writeBack

namespace CpuConfig.Alike

variable {cfg cfg' : CpuConfig} (h : cfg.Alike cfg')

include h

theorem didx : cfg.dcache.idx = cfg'.dcache.idx := by
  funext x
  simp only [CacheConfig.idx, h.dlines]

theorem store : cfg.dcache.store = cfg'.dcache.store := by
  funext st a wr
  simp only [CacheConfig.store, h.dcache, h.didx, h.writeBack]

/-- the results agree but for their stalls -/
theorem outcome (st : DirectMapped.Store ℕ ℕ) (a : BitVec 32) :
    (cfg.dcache.outcome st a).miss = (cfg'.dcache.outcome st a).miss ∧
      (cfg.dcache.outcome st a).writeback = (cfg'.dcache.outcome st a).writeback := by
  unfold CacheConfig.outcome
  rw [h.dcache, h.didx]
  cases cfg'.dcache.enabled with
  | false => exact ⟨rfl, rfl⟩
  | true => cases DirectMapped.result cfg'.dcache.idx st (block a) <;> exact ⟨rfl, rfl⟩

end CpuConfig.Alike

namespace CpuModel

open Caches

variable {cfg cfg' : CpuConfig}

/-- equal computation, equal D-cache contents, equal leads -/
structure InStep (s : CpuModel cfg) (s' : CpuModel cfg') : Prop where
  arch : s.arch = s'.arch
  dcache : s.dcache.contents = s'.dcache.contents
  lead : ∃ j ≤ 3, Lead s.caches.frontEnd s.pc j ∧ Lead s'.caches.frontEnd s'.pc j

theorem inStep_boot (h : cfg.Accepted) (h' : cfg'.Accepted) (hm : cfg.memorySize = cfg'.memorySize)
    (program data : ℕ → BitVec 8) (pc : BitVec 32) :
    InStep (boot cfg h program data pc) (boot cfg' h' program data pc) where
  arch := arch_boot h h' hm program data pc
  dcache := by rw [(boot_contents h program data pc).2, (boot_contents h' program data pc).2]
  lead := ⟨0, Nat.zero_le 3, lead_boot h program data pc, lead_boot h' program data pc⟩

variable {s t : CpuModel cfg} {s' t' : CpuModel cfg'} {b b' : Bool}

/-- the same accesses stall -/
theorem InStep.dstall (h : InStep s s') (ha : cfg.Alike cfg') (hd : 2 * cfg.dcache.memoryLatency.toNat + 7 < 2 ^ 32)
    (hd' : 2 * cfg'.dcache.memoryLatency.toNat + 7 < 2 ^ 32) (k : Kind) :
    s.caches.dstall k = 0 ↔ s'.caches.dstall k = 0 := by
  have hcontents : s.caches.dcache.contents = s'.caches.dcache.contents := h.dcache
  rw [dstall_eq, dstall_eq, ← hcontents]
  cases k.mem with
  | none => exact Iff.rfl
  | some m =>
    simp only [CacheConfig.outcome_stall_zero hd, CacheConfig.outcome_stall_zero hd', (ha.outcome _ m.1).1]

/-- models in step charge the same instruction, from the same lead of their fetch pointers -/
theorem InStep.charged (h : InStep s s') (w : Stepped s b t) (w' : Stepped s' b' t') : ∃ j ≤ 3,
    Lead s.caches.frontEnd s.pc j ∧ Lead s'.caches.frontEnd s.pc j ∧
    Nonempty (Charged s.caches w.e.kind s.pc w.e.nextPc s.look w.stalls t.caches) ∧
    Nonempty (Charged s'.caches w.e.kind s.pc w.e.nextPc s.look w'.stalls t'.caches) := by
  obtain ⟨j, hj, hl, hl'⟩ := h.lead
  obtain ⟨-, he⟩ := w.same w' h.arch
  have hpc : s.pc = s'.pc := congrArg Arch.pc h.arch
  have hcharged := w'.charged
  rw [← he, ← look_same h.arch, ← hpc] at hcharged
  exact ⟨j, hj, hl, hpc ▸ hl', w.charged, hcharged⟩

/-- **Both models keep step.** -/
theorem Stepped.inStep (w : Stepped s b t) (w' : Stepped s' b' t') (ha : cfg.Alike cfg')
    (hd : 2 * cfg.dcache.memoryLatency.toNat + 7 < 2 ^ 32) (hd' : 2 * cfg'.dcache.memoryLatency.toNat + 7 < 2 ^ 32)
    (hmem : cfg.memorySize + 16 ≤ 2 ^ 32) (h : InStep s s') (hi : s.Inv) (hi' : s'.Inv) : InStep t t' := by
  have hmem' : cfg'.memorySize + 16 ≤ 2 ^ 32 := ha.memory ▸ hmem
  obtain ⟨hinsn, he⟩ := w.same w' h.arch
  obtain ⟨j, hj, hl, hl'⟩ := h.lead
  obtain ⟨q⟩ := w.charged
  obtain ⟨q'⟩ := w'.charged
  obtain ⟨-, hlead⟩ := w.served hi hmem hj hl q
  obtain ⟨-, hlead'⟩ := w'.served hi' hmem' hj hl' q'
  rw [← he, ← Kind.leadAfter_congr _ _ (h.dstall ha hd hd' w.e.kind)] at hlead'
  obtain ⟨-, -, -, hcontents, -⟩ := w.dcache
  obtain ⟨-, -, -, hcontents', -⟩ := w'.dcache
  rw [← he, ← ha.store, ← h.dcache] at hcontents'
  exact ⟨by rw [w.arch, w'.arch, hinsn, he, h.arch], by rw [hcontents, hcontents'],
    _, Kind.leadAfter_le _ hj _, hlead, hlead'⟩

/-- in a run that halts, no store has a look-ahead that faults: the next fetch would fault as well -/
theorem Stepped.quiet_of_halts {u : CpuModel cfg} (w : Stepped s b u) {n : ℕ} (hrest : Exec.iter step n u = some t)
    (hh : t.halted = true) {x : Exn} (hx : s.look = .error x) : w.e.kind.stores = false := by
  by_contra hstore
  have hseq : w.e.kind.jumps = false ∧ w.e.kind ≠ .system := by
    cases hk : w.e.kind <;> simp [hk, Kind.stores, Kind.jumps] at hstore ⊢
  have hlive : u.halted = false := by rw [w.halted, decide_eq_false hseq.2]
  have hnext : u.instructionMemory.read32 u.pc = .error x := by
    have hu : u.instructionMemory = s.instructionMemory := (congrArg Arch.instructionMemory w.arch).trans rfl
    rw [hu, w.pc, w.fits.sequential hseq.1]
    exact look_error hx
  cases n with
  | zero =>
    cases hrest
    rw [hlive] at hh
    cases hh
  | succ m =>
    obtain ⟨b₂, v, hstep₂, -⟩ := Exec.iter_succ.1 hrest
    obtain ⟨w₂⟩ := step_of_live hlive hstep₂
    rw [w₂.fetch] at hnext
    cases hnext

/-- **A run that halts also halts over the other caches.** The overlap rule of a store faults only where the next fetch
would, and that fetch returned in the run that halts. -/
theorem halts_same (hm : cfg.memorySize = cfg'.memorySize) (hmax : cfg.maxInstructions = cfg'.maxInstructions)
    (hmem : cfg.memorySize + 16 ≤ 2 ^ 32) {n : ℕ} (h : s.arch = s'.arch) (hi : s.Inv) (hi' : s'.Inv)
    (ht : Exec.iter step n s = some t) (hh : t.halted = true) :
    ∃ t', Exec.iter step n s' = some t' ∧ t'.halted = true := by
  have hmem' : cfg'.memorySize + 16 ≤ 2 ^ 32 := hm ▸ hmem
  induction n generalizing s s' with
  | zero =>
    cases ht
    exact ⟨s', rfl, (congrArg Arch.halted h).symm.trans hh⟩
  | succ n ih =>
    obtain ⟨a, u, hstep, hrest⟩ := Exec.iter_succ.1 ht
    have hhalt : s.halted = s'.halted := congrArg Arch.halted h
    rcases step_ok.1 hstep with ⟨hs, -, rfl⟩ | ⟨⟨w⟩⟩
    · obtain ⟨t', ht', hh'⟩ := ih h hi hi' hrest
      exact ⟨t', Exec.iter_succ.2 ⟨_, _, step_of_halted (hhalt ▸ hs), ht'⟩, hh'⟩
    · have him : s.instructionMemory = s'.instructionMemory := congrArg Arch.instructionMemory h
      have hpc : s.pc = s'.pc := congrArg Arch.pc h
      have hretired : s.stats.retired = s'.stats.retired := congrArg (fun x => x.classes.retired) h
      have hquiet : ∀ x, s'.look = .error x → w.e.kind.stores = false := by
        intro x hx
        rw [← look_same h] at hx
        exact w.quiet_of_halts hrest hh hx
      have hrun' : Running s' := ⟨hhalt ▸ w.running.live, by have := w.running.below; omega, hpc ▸ w.running.aligned⟩
      have hdm : s.dataMemory = s'.dataMemory := congrArg Arch.dataMemory h
      have hregs : s.regs = s'.regs := congrArg Arch.regs h
      have hfetch := w.fetch
      have heffect := w.effect
      rw [him, hpc] at hfetch
      rw [hdm, hregs, hpc] at heffect
      obtain ⟨b', u', hu'⟩ := step_returns hmem' hi' hrun' hfetch heffect hquiet
      obtain ⟨w'⟩ := step_of_live hrun'.live hu'
      obtain ⟨hinsn, he⟩ := w.same w' h
      have harch : u.arch = u'.arch := by rw [w.arch, w'.arch, hinsn, he, h]
      obtain ⟨t', ht', hh'⟩ := ih harch (w.inv hi hmem) (w'.inv hi' hmem') hrest
      exact ⟨t', Exec.iter_succ.2 ⟨_, _, hu', ht'⟩, hh'⟩

/-- from boot, a run halts after n steps over both caches or over neither -/
theorem halts_iff (h : cfg.Accepted) (h' : cfg'.Accepted) (hm : cfg.memorySize = cfg'.memorySize)
    (hmax : cfg.maxInstructions = cfg'.maxInstructions) (hmem : cfg.memorySize + 16 ≤ 2 ^ 32)
    (program data : ℕ → BitVec 8) (pc : BitVec 32) (n : ℕ) :
    (∃ t, Exec.iter step n (boot cfg h program data pc) = some t ∧ t.halted = true) ↔
      ∃ t', Exec.iter step n (boot cfg' h' program data pc) = some t' ∧ t'.halted = true := by
  have hmem' : cfg'.memorySize + 16 ≤ 2 ^ 32 := hm ▸ hmem
  have harch := arch_boot h h' hm program data pc
  have hinv := inv_boot h program data pc
  have hinv' := inv_boot h' program data pc
  refine ⟨?_, ?_⟩
  · intro ⟨t, ht, hh⟩
    exact halts_same hm hmax hmem harch hinv hinv' ht hh
  · intro ⟨t', ht', hh'⟩
    exact halts_same hm.symm hmax.symm hmem' harch.symm hinv' hinv ht' hh'

/-! ## The redirect behind a store -/

/-- a foreseen redirect is the next instruction, and it fetches nothing -/
theorem Stepped.foreseen (w : Stepped s b t) {target : BitVec 32}
    (hlook : s.sequentialNextRedirectTarget s.pc = .ok (some target)) :
    w.e.kind.jumps = true ∧ t.pc = target ∧ s.caches.dstall w.e.kind = 0 := by
  obtain ⟨hjumps, hnext⟩ := look_effect hlook w.fetch w.effect
  refine ⟨hjumps, w.pc.trans hnext, ?_⟩
  by_contra hd
  have hr := redirects_of_dstall s.caches w.e.kind hd
  simp [Kind.redirects, hjumps] at hr

/-- a store leaves the registers and instruction memory alone -/
theorem Stepped.store_keeps (w : Stepped s b t) (h0 : s.regs 0 = 0) (hk : w.e.kind.stores = true) :
    t.instructionMemory = s.instructionMemory ∧ t.regs = s.regs ∧ t.pc = s.pc + 4 ∧ t.halted = false := by
  obtain ⟨a, hstore⟩ : ∃ a, w.e.kind = .store a := by
    cases h : w.e.kind with
    | store a => exact ⟨a, rfl⟩
    | _ => simp [h, Kind.stores] at hk
  have hwr : w.e.wr = none := w.fits.store a hstore
  refine ⟨(congrArg Arch.instructionMemory w.arch).trans rfl, ?_, w.pc.trans (w.fits.sequential (by rw [hstore]; rfl)), ?_⟩
  · have h : t.regs = Function.update (w.e.regs s.regs) 0 0 := (congrArg Arch.regs w.arch).trans rfl
    rw [h, Effect.regs, hwr, ← h0]
    exact Function.update_eq_self 0 s.regs
  · rw [w.halted, hstore]
    rfl

/-- a store leaves the look-ahead to the next pc -/
theorem Stepped.look_after (w : Stepped s b t) (hi : s.Inv) {a : BitVec 32} (hk : w.e.kind = .store a) :
    t.sequentialNextRedirectTarget t.pc = s.look := by
  obtain ⟨him, hregs, hpc, -⟩ := w.store_keeps hi.zero (by rw [hk]; rfl)
  rw [look_congr him hregs, hpc]
  rfl

end CpuModel

end Rv32im
