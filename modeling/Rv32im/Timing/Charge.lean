/-
The cache side of one instruction, stage by stage.

An instruction makes a demand fetch, at most one D-cache access with the look-ahead behind its stall, at most one
overlap credit, and at most one redirect or drain. For an instruction without data access the D-cache stall is 0 and
the look-ahead does nothing, so the stages are the same for every kind.

- `memory_eq`, `control_eq`: the stages as equations, with every way to throw.
- `charge_ok`: the cache side returns exactly when all stages do; `Charged` names what they did.
- `replay_hit`: a store presented again to the line it just filled hits, so the replay check never fails.
- `Charged.dcontents`, `Charged.dstats`: the D-cache after the instruction; a replay counts as one more hit only.
-/
import Rv32im.Step.Factor
import Rv32im.Timing.FrontEnd

namespace Rv32im

namespace DirectMappedCacheModel

variable {config : CacheConfig}

/-- **A store presented again hits.** -/
theorem replay_hit (c : DirectMappedCacheModel config) (a : BitVec 32) (w : Bool) :
    ((c.access a w).2.access a true).1 = { hit := true } := by
  cases hen : config.enabled with
  | false => rw [access_disabled hen]
  | true =>
    rw [access_fst hen, access_contents hen, DirectMapped.result_hit.2 (DirectMapped.resident_access_self _ _ _)]
    rfl

/-- and it changes nothing but two counters -/
theorem replay_contents (c : DirectMappedCacheModel config) (a : BitVec 32) :
    ((c.access a true).2.access a true).2.contents = (c.access a true).2.contents := by
  cases hen : config.enabled with
  | false => rw [access_disabled hen, access_disabled hen]
  | true => rw [access_contents hen, access_contents hen, DirectMapped.access_mark_twice]

theorem replay_stats (hen : config.enabled = true) (c : DirectMappedCacheModel config) (a : BitVec 32) :
    ((c.access a true).2.access a true).2.stats = (c.access a true).2.stats.addReads 1 0 0 := by
  rw [access_stats hen, replay_hit]
  simp [CacheStats.charge, CacheStats.addReads]

end DirectMappedCacheModel

namespace Caches

variable {cfg : CpuConfig}

/-! ## The stages -/

/-- the D-cache result of an instruction -/
def daccess (c : Caches cfg) (k : Kind) : Option CacheAccessResult :=
  k.mem.map fun m => (c.dcache.access m.1 m.2).1

def dstall (c : Caches cfg) (k : Kind) : BitVec 32 :=
  match c.daccess k with
  | some a => a.stallCycles
  | none => 0

/-- after the D-cache access -/
def accessed (c : Caches cfg) (k : Kind) : Caches cfg :=
  match k.mem with
  | some (a, w) =>
    { c with dcache := (c.dcache.access a w).2, outcomes := c.outcomes ++ [(c.dcache.access a w).1] }
  | none => c

/-- the credit of an instruction with D-cache stall `d`, whose look-ahead stalled for `f` and left the I-cache `i` -/
def creditOf (cfg : CpuConfig) (k : Kind) (look : Except Exn (Option (BitVec 32))) (d f : BitVec 32)
    (i : DirectMappedCacheModel cfg.icache) : BitVec 32 :=
  match k, look with
  | .store _, .ok (some target) =>
    if d ≠ 0 ∧ f ≠ 0 ∧ i.wouldHit target = false then CpuModel.cacheOverlapCredit cfg d else 0
  | _, _ => 0

/-- what the look-ahead of the overlap rule throws -/
def lookFault (k : Kind) (look : Except Exn (Option (BitVec 32))) (d f : BitVec 32) : Option Exn :=
  match k, look with
  | .store _, .error e => if d ≠ 0 ∧ f ≠ 0 then some e else none
  | _, _ => none

/-- after a credit `x` -/
def granted (c : Caches cfg) (k : Kind) (x : BitVec 32) : Caches cfg :=
  if x = 0 then c
  else { c with
    overlap := c.overlap + x.toNat, replays := c.replays + 1
    dcache := match k.mem with
      | some (a, _) => (c.dcache.access a true).2
      | none => c.dcache }

theorem lookFault_some {k : Kind} {look : Except Exn (Option (BitVec 32))} {d f : BitVec 32} {x : Exn} :
    lookFault k look d f = some x ↔ k.stores = true ∧ look = .error x ∧ d ≠ 0 ∧ f ≠ 0 := by
  unfold lookFault
  split
  · split_ifs with h
    · exact ⟨fun he => ⟨rfl, congrArg Except.error (Option.some.inj he), h⟩,
        fun he => congrArg some (Except.error.inj he.2.1)⟩
    · exact ⟨fun he => (nomatch he), fun he => absurd he.2.2 h⟩
  · rename_i hno
    refine ⟨fun h => (nomatch h), ?_⟩
    intro ⟨hk, hl, _⟩
    cases k with
    | store a => exact absurd hl (hno a x rfl)
    | _ => cases hk

/-- the redirect or drain call of an instruction -/
def controlCall (icfg : CacheConfig) (k : Kind) (pc nextPc : BitVec 32) : FetchM {} icfg (BitVec 32) :=
  match k with
  | .branch true => FrontEnd.onTakenBranch pc nextPc
  | .jump => FrontEnd.onJumpRedirect pc nextPc
  | .system => FrontEnd.onSystemDrain pc
  | _ => pure 0

theorem front_apply {α : Type} (m : FetchM {} cfg.icache α) (c : Caches cfg) :
    front m c = match m c.frontEnd with
      | .ok a f => .ok a (c.putFront f)
      | .throw e f => .throw e (c.putFront f)
      | .diverge => .diverge := by
  simp only [front, Exec.zoom]
  cases m c.frontEnd <;> rfl

@[simp] theorem frontEnd_putFront (f : FrontEnd {} cfg.icache) (c : Caches cfg) : (c.putFront f).frontEnd = f := rfl
@[simp] theorem putFront_putFront (f g : FrontEnd {} cfg.icache) (c : Caches cfg) :
    (c.putFront f).putFront g = c.putFront g := rfl

theorem accessed_putFront (f : FrontEnd {} cfg.icache) (c : Caches cfg) (k : Kind) :
    (c.putFront f).accessed k = (c.accessed k).putFront f := by
  cases k <;> rfl

theorem grant_eq (a x : BitVec 32) (c : Caches cfg) :
    grant a x (c.accessed (.store a)) = .ok x ((c.accessed (.store a)).granted (.store a) x) := by
  have hrep : ((c.accessed (.store a)).dcache.access a true).1 = { hit := true } :=
    DirectMappedCacheModel.replay_hit c.dcache a true
  by_cases hx : x = 0
  · subst hx
    rfl
  · have hok : ¬ (((c.accessed (.store a)).dcache.access a true).1.hit = false ∨
        ((c.accessed (.store a)).dcache.access a true).1.stallCycles ≠ 0) := by rw [hrep]; simp
    unfold grant granted
    rw [if_pos hx, if_neg hx]
    simp only [if_neg hok]
    rfl

/-- the overlap rule behind the access of a store: it throws the look-ahead's exception or grants the credit -/
theorem credit_eq (look : Except Exn (Option (BitVec 32))) (a d s : BitVec 32) (c : Caches cfg) :
    credit look a d s (c.accessed (.store a)) =
      match lookFault (.store a) look d s with
      | some e => .throw e (c.accessed (.store a))
      | none => .ok (creditOf cfg (.store a) look d s c.icache)
          ((c.accessed (.store a)).granted (.store a) (creditOf cfg (.store a) look d s c.icache)) := by
  have hi : (c.accessed (.store a)).icache = c.icache := rfl
  unfold credit lookFault creditOf
  by_cases hds : d ≠ 0 ∧ s ≠ 0
  · rw [if_pos hds]
    cases look with
    | error e => simp only [if_pos hds]
    | ok target =>
      cases target with
      | none => rfl
      | some target =>
        simp only [hi]
        cases hw : c.icache.wouldHit target with
        | true => simp [granted]
        | false =>
          have hgrant : grant a (CpuModel.cacheOverlapCredit cfg d) (c.accessed (.store a)) =
              .ok (CpuModel.cacheOverlapCredit cfg d)
                ((c.accessed (.store a)).granted (.store a) (CpuModel.cacheOverlapCredit cfg d)) :=
            grant_eq a (CpuModel.cacheOverlapCredit cfg d) c
          simp only [Bool.false_eq_true, if_false, and_true]
          rw [if_pos hds, hgrant]
  · rw [if_neg hds]
    have hno : ∀ p, ¬ (d ≠ 0 ∧ s ≠ 0 ∧ p) := fun p h => hds ⟨h.1, h.2.1⟩
    cases look with
    | error e => simp only [if_neg hds]; rfl
    | ok target =>
      cases target with
      | none => rfl
      | some target => simp only [if_neg (hno _)]; rfl

/-- **The data-memory stage**, from the look-ahead call on the fetch stream. -/
theorem memory_eq (k : Kind) (pc : BitVec 32) (look : Except Exn (Option (BitVec 32))) (st : BitVec 32)
    (c : Caches cfg) :
    memory k pc look st c =
      match FrontEnd.onDcacheStall pc (c.dstall k) c.frontEnd with
      | .diverge => .diverge
      | .throw e f => .throw e ((c.accessed k).putFront f)
      | .ok s f =>
        match lookFault k look (c.dstall k) s with
        | some e => .throw e ((c.accessed k).putFront f)
        | none => .ok (st + s + c.dstall k - creditOf cfg k look (c.dstall k) s f.icache)
            (((c.accessed k).putFront f).granted k (creditOf cfg k look (c.dstall k) s f.icache)) := by
  cases k with
  | load a =>
    have hacc : access a false c = .ok (c.dcache.access a false).1 (c.accessed (.load a)) := rfl
    have hd : (c.dcache.access a false).1.stallCycles = c.dstall (.load a) := rfl
    have hfront : (c.accessed (.load a)).frontEnd = c.frontEnd := rfl
    simp only [memory, Exec.bind_apply, hacc, Exec.andThen_ok, hd, front_apply, hfront]
    cases FrontEnd.onDcacheStall pc (c.dstall (.load a)) c.frontEnd with
    | ok s f => simp [lookFault, creditOf, granted]
    | throw e f => rfl
    | diverge => rfl
  | store a =>
    have hacc : access a true c = .ok (c.dcache.access a true).1 (c.accessed (.store a)) := rfl
    have hd : (c.dcache.access a true).1.stallCycles = c.dstall (.store a) := rfl
    have hfront : (c.accessed (.store a)).frontEnd = c.frontEnd := rfl
    simp only [memory, Exec.bind_apply, hacc, Exec.andThen_ok, hd, front_apply, hfront]
    cases FrontEnd.onDcacheStall pc (c.dstall (.store a)) c.frontEnd with
    | ok s f =>
      have hcredit := credit_eq look a (c.dstall (.store a)) s (c.putFront f)
      rw [accessed_putFront] at hcredit
      simp only [Exec.andThen_ok, Exec.bind_apply, hcredit]
      cases lookFault (.store a) look (c.dstall (.store a)) s <;> rfl
    | throw e f => rfl
    | diverge => rfl
  | _ =>
    simp only [dstall, daccess, Kind.mem, Option.map_none, FrontEnd.onDcacheStall_zero]
    simp [memory, lookFault, creditOf, granted, accessed, Kind.mem, putFront, frontEnd]

theorem control_eq (k : Kind) (pc nextPc st : BitVec 32) (c : Caches cfg) :
    control k pc nextPc st c =
      match controlCall cfg.icache k pc nextPc c.frontEnd with
      | .ok s f => .ok (st + s) (c.putFront f)
      | .throw e f => .throw e (c.putFront f)
      | .diverge => .diverge := by
  have hcall : ∀ m : FetchM {} cfg.icache (BitVec 32),
      (do let f ← front m; return st + f : M cfg (BitVec 32)) c =
        match m c.frontEnd with
        | .ok s f => .ok (st + s) (c.putFront f)
        | .throw e f => .throw e (c.putFront f)
        | .diverge => .diverge := by
    intro m
    rw [Exec.bind_apply, front_apply]
    cases m c.frontEnd <;> rfl
  have hpure : (pure st : M cfg (BitVec 32)) c = .ok (st + 0) (c.putFront c.frontEnd) := by
    simp only [Exec.pure_apply, Outcome.ok.injEq]
    exact ⟨(BitVec.add_zero st).symm, rfl⟩
  cases k with
  | branch taken =>
    cases taken with
    | true => exact hcall _
    | false => exact hpure
  | jump => exact hcall _
  | system => exact hcall _
  | _ => exact hpure

/-! ## The whole charge -/

/-- what a returning instruction did on the cache side -/
structure Charged (c : Caches cfg) (k : Kind) (pc nextPc : BitVec 32) (look : Except Exn (Option (BitVec 32)))
    (st : BitVec 32) (c' : Caches cfg) where
  (s₁ s₂ s₃ credit : BitVec 32)
  (f₁ f₂ f₃ : FrontEnd {} cfg.icache)
  demand : FrontEnd.ensureThrough pc c.frontEnd = .ok s₁ f₁
  ahead : FrontEnd.onDcacheStall pc (c.dstall k) f₁ = .ok s₂ f₂
  quiet : lookFault k look (c.dstall k) s₂ = none
  credited : credit = creditOf cfg k look (c.dstall k) s₂ f₂.icache
  control : controlCall cfg.icache k pc nextPc f₂ = .ok s₃ f₃
  stalls : st = s₁ + s₂ + c.dstall k - credit + s₃
  after : c' = ((c.accessed k).granted k credit).putFront f₃

theorem granted_putFront (f : FrontEnd {} cfg.icache) (c : Caches cfg) (k : Kind) (x : BitVec 32) :
    (c.putFront f).granted k x = (c.granted k x).putFront f := by
  unfold granted
  split_ifs <;> rfl

/-- the state after the first stages and the fetch stream `f` -/
theorem staged (f g k : FrontEnd {} cfg.icache) (c : Caches cfg) (kd : Kind) (x : BitVec 32) :
    (((((c.putFront f).accessed kd).putFront g).granted kd x).putFront k) =
      ((c.accessed kd).granted kd x).putFront k := by
  rw [accessed_putFront, granted_putFront, granted_putFront]
  rfl

theorem dstall_putFront (f : FrontEnd {} cfg.icache) (c : Caches cfg) (k : Kind) :
    (c.putFront f).dstall k = c.dstall k := rfl

/-- **The cache side returns** exactly when every stage does and the overlap rule finds no fault. -/
theorem charge_ok {k : Kind} {pc nextPc st : BitVec 32} {look : Except Exn (Option (BitVec 32))} {c c' : Caches cfg} :
    charge k pc nextPc look c = .ok st c' ↔ Nonempty (Charged c k pc nextPc look st c') := by
  simp only [charge, Exec.bind_ok, memory_eq, control_eq, front_apply]
  refine ⟨?_, ?_⟩
  · intro ⟨s₁, c₁, h₁, s, c₂, h₂, h₃⟩
    cases hd : FrontEnd.ensureThrough pc c.frontEnd with
    | throw e f => simp [hd] at h₁
    | diverge => simp [hd] at h₁
    | ok s₁ f₁ =>
      simp only [hd, Outcome.ok.injEq] at h₁
      obtain ⟨rfl, rfl⟩ := h₁
      rw [frontEnd_putFront, dstall_putFront] at h₂
      cases ha : FrontEnd.onDcacheStall pc (c.dstall k) f₁ with
      | throw e f => simp [ha] at h₂
      | diverge => simp [ha] at h₂
      | ok s₂ f₂ =>
        cases hq : lookFault k look (c.dstall k) s₂ with
        | some e => simp [ha, hq] at h₂
        | none =>
          simp only [ha, hq, Outcome.ok.injEq] at h₂
          obtain ⟨rfl, rfl⟩ := h₂
          rw [granted_putFront, frontEnd_putFront] at h₃
          cases hc : controlCall cfg.icache k pc nextPc f₂ with
          | throw e f => simp [hc] at h₃
          | diverge => simp [hc] at h₃
          | ok s₃ f₃ =>
            simp only [hc, Outcome.ok.injEq] at h₃
            obtain ⟨rfl, rfl⟩ := h₃
            exact ⟨⟨s₁, s₂, s₃, _, f₁, f₂, f₃, hd, ha, hq, rfl, hc, rfl, by
              rw [← granted_putFront, staged]⟩⟩
  · rintro ⟨⟨s₁, s₂, s₃, x, f₁, f₂, f₃, hd, ha, hq, rfl, hc, rfl, rfl⟩⟩
    refine ⟨s₁, c.putFront f₁, by rw [hd], s₁ + s₂ + c.dstall k - creditOf cfg k look (c.dstall k) s₂ f₂.icache,
      (((c.putFront f₁).accessed k).putFront f₂).granted k (creditOf cfg k look (c.dstall k) s₂ f₂.icache), ?_, ?_⟩
    · rw [frontEnd_putFront, dstall_putFront, ha]
      simp only [hq]
    rw [granted_putFront, frontEnd_putFront, hc]
    simp only [Outcome.ok.injEq, true_and]
    rw [← granted_putFront, staged]

/-- **The cache side returns without an I-cache**, whatever the look-ahead would find. -/
theorem charge_returns_disabled (hen : cfg.icache.enabled = false) (k : Kind) (pc nextPc : BitVec 32)
    (look : Except Exn (Option (BitVec 32))) (c : Caches cfg) : ∃ st c', charge k pc nextPc look c = .ok st c' := by
  have hdemand := FrontEnd.ensureThrough_disabled hen pc c.frontEnd
  have hahead : FrontEnd.onDcacheStall pc (c.dstall k) c.frontEnd = .ok 0 c.frontEnd := by
    simp [FrontEnd.onDcacheStall, hen]
  have hquiet : lookFault k look (c.dstall k) 0 = none := by
    unfold lookFault
    split <;> simp
  have hcontrol : ∃ f, controlCall cfg.icache k pc nextPc c.frontEnd = .ok 0 f := by
    unfold controlCall
    split <;> simp [FrontEnd.onTakenBranch, FrontEnd.onJumpRedirect, FrontEnd.redirect, FrontEnd.onSystemDrain, hen,
      Exec.bind_apply]
  obtain ⟨f, hf⟩ := hcontrol
  exact ⟨_, _, charge_ok.2 ⟨⟨0, 0, 0, _, _, _, f, hdemand, hahead, hquiet, rfl, hf, rfl, rfl⟩⟩⟩

/-- another look-ahead result that fails only where this one does leaves the cache side returning -/
theorem Charged.relook {k : Kind} {pc nextPc st : BitVec 32} {look look' : Except Exn (Option (BitVec 32))}
    {c c' : Caches cfg} (w : Charged c k pc nextPc look st c') (hlook : ∀ x, look' = .error x → look = .error x) :
    ∃ st' d, charge k pc nextPc look' c = .ok st' d := by
  have hquiet : lookFault k look' (c.dstall k) w.s₂ = none := by
    by_contra hfault
    obtain ⟨x, hx⟩ := Option.ne_none_iff_exists'.1 hfault
    obtain ⟨hk, hl, hd, hs⟩ := lookFault_some.1 hx
    have hsame := lookFault_some.2 ⟨hk, hlook x hl, hd, hs⟩
    rw [w.quiet] at hsame
    cases hsame
  exact ⟨_, _, charge_ok.2
    ⟨⟨w.s₁, w.s₂, w.s₃, _, w.f₁, w.f₂, w.f₃, w.demand, w.ahead, hquiet, rfl, w.control, rfl, rfl⟩⟩⟩

theorem noThrow_controlCall (icfg : CacheConfig) (k : Kind) {pc : BitVec 32} (h : Aligned pc) (nextPc : BitVec 32) :
    (controlCall icfg k pc nextPc).NoThrow := by
  have h8 : Aligned (pc + 8) := h.add aligned_eight
  unfold controlCall
  split
  · exact FrontEnd.noThrow_redirect h8 _
  · exact FrontEnd.noThrow_redirect h8 _
  · exact FrontEnd.noThrow_onSystemDrain h8
  · exact Exec.noThrow_pure _

/-- **The cache side throws** only from the look-ahead of the overlap rule, when the pc is word aligned. The D-cache
has been accessed and the fetch stream has moved by then. -/
theorem charge_throw {k : Kind} {pc nextPc : BitVec 32} {look : Except Exn (Option (BitVec 32))} {c c' : Caches cfg}
    {e : Exn} (hpc : Aligned pc) :
    charge k pc nextPc look c = .throw e c' ↔ ∃ s₁ f₁ s₂ f₂,
      FrontEnd.ensureThrough pc c.frontEnd = .ok s₁ f₁ ∧ FrontEnd.onDcacheStall pc (c.dstall k) f₁ = .ok s₂ f₂ ∧
        lookFault k look (c.dstall k) s₂ = some e ∧ c' = (c.accessed k).putFront f₂ := by
  have h12 : Aligned (pc + 12) := hpc.add aligned_twelve
  simp only [charge, Exec.bind_throw, memory_eq, control_eq, front_apply]
  cases hd : FrontEnd.ensureThrough pc c.frontEnd with
  | throw x f => exact absurd hd (FrontEnd.noThrow_ensureThrough hpc _ x f)
  | diverge => simp
  | ok s₁ f₁ =>
    simp only [reduceCtorEq, Outcome.ok.injEq, false_or, exists_and_left, exists_eq_left', and_assoc,
      frontEnd_putFront, dstall_putFront]
    cases ha : FrontEnd.onDcacheStall pc (c.dstall k) f₁ with
    | throw x f => exact absurd ha (FrontEnd.noThrow_onDcacheStall h12 _ _ x f)
    | diverge => simp
    | ok s₂ f₂ =>
      cases hq : lookFault k look (c.dstall k) s₂ with
      | some x => simp [hq, accessed_putFront, eq_comm]
      | none =>
        have hcontrol := noThrow_controlCall cfg.icache k hpc nextPc f₂
        cases hc : controlCall cfg.icache k pc nextPc f₂ with
        | throw x f => exact absurd hc (hcontrol x f)
        | ok s₃ f₃ => simp [hq, granted_putFront, hc]
        | diverge => simp [hq, granted_putFront, hc]

/-! ## The credit -/

/-- a nonzero credit: a store that missed, whose look-ahead stalled, in front of a taken redirect to an absent target -/
theorem creditOf_ne_zero {k : Kind} {look : Except Exn (Option (BitVec 32))} {d f : BitVec 32}
    {i : DirectMappedCacheModel cfg.icache} (h : creditOf cfg k look d f i ≠ 0) :
    ∃ a target, k = .store a ∧ look = .ok (some target) ∧ d ≠ 0 ∧ f ≠ 0 ∧ i.wouldHit target = false ∧
      creditOf cfg k look d f i = CpuModel.cacheOverlapCredit cfg d := by
  unfold creditOf at h ⊢
  split at h
  · rename_i a target
    split_ifs at h with hc
    · exact ⟨a, target, rfl, rfl, hc.1, hc.2.1, hc.2.2, by rw [if_pos hc]⟩
    · exact absurd rfl h
  · exact absurd rfl h

theorem creditOf_store {k : Kind} {look : Except Exn (Option (BitVec 32))} {d f a target : BitVec 32}
    {i : DirectMappedCacheModel cfg.icache} (hk : k = .store a) (hl : look = .ok (some target)) (hd : d ≠ 0)
    (hf : f ≠ 0) (hi : i.wouldHit target = false) : creditOf cfg k look d f i = CpuModel.cacheOverlapCredit cfg d := by
  subst hk hl
  exact if_pos ⟨hd, hf, hi⟩

theorem cacheOverlapCredit_enabled {d : BitVec 32} (h : CpuModel.cacheOverlapCredit cfg d ≠ 0) :
    cfg.icache.enabled = true ∧ cfg.dcache.enabled = true := by
  unfold CpuModel.cacheOverlapCredit at h
  split_ifs at h with hc
  · exact absurd rfl h
  all_goals
    simp only [Bool.or_eq_true, not_or, Bool.not_eq_true', Bool.not_eq_false] at hc
    exact hc.1

theorem cacheOverlapCredit_toNat (hi : cfg.icache.enabled = true) (hd : cfg.dcache.enabled = true) (d : BitVec 32) :
    (CpuModel.cacheOverlapCredit cfg d).toNat = min (d.toNat - 1) cfg.icache.penalty := by
  have hsub : ¬ d ≤ 1 → (d - 1).toNat = d.toNat - 1 := by
    intro h
    have h1 : 1 ≤ d.toNat := by
      rw [BitVec.le_def] at h
      simp at h
      omega
    rw [BitVec.toNat_sub_of_le (by rw [BitVec.le_def]; simpa using h1)]
    rfl
  unfold CpuModel.cacheOverlapCredit CacheConfig.penalty
  simp only [hi, hd, Bool.not_true, Bool.false_or, decide_eq_true_eq]
  split_ifs with h1 h2
  · rw [BitVec.le_def] at h1
    simp at h1 ⊢
    omega
  · rw [BitVec.lt_def, hsub h1] at h2
    rw [hsub h1]
    omega
  · rw [BitVec.lt_def, hsub h1] at h2
    omega

theorem creditOf_le {k : Kind} {look : Except Exn (Option (BitVec 32))} {d f : BitVec 32}
    {i : DirectMappedCacheModel cfg.icache} : (creditOf cfg k look d f i).toNat ≤ d.toNat - 1 := by
  by_cases h : creditOf cfg k look d f i = 0
  · rw [h]
    simp
  · obtain ⟨a, target, -, -, -, -, -, hx⟩ := creditOf_ne_zero h
    obtain ⟨hi, hd⟩ := cacheOverlapCredit_enabled (hx ▸ h)
    rw [hx, cacheOverlapCredit_toNat hi hd]
    exact min_le_left _ _

/-! ## The D-cache after the instruction -/

/-- the D-cache result of an instruction, from the contents of the D-cache -/
theorem daccess_eq (c : Caches cfg) (k : Kind) :
    c.daccess k = k.mem.map fun m => cfg.dcache.outcome c.dcache.contents m.1 := by
  unfold daccess
  simp only [DirectMappedCacheModel.access_outcome]

namespace Charged

variable {k : Kind} {pc nextPc st : BitVec 32} {look : Except Exn (Option (BitVec 32))} {c c' : Caches cfg}
  (w : Charged c k pc nextPc look st c')

/-- the number of filled-line replays -/
def replay : ℕ := if w.credit = 0 then 0 else 1

theorem front : c'.frontEnd = w.f₃ := congrArg frontEnd w.after

theorem overlap : c'.overlap = c.overlap + w.credit.toNat := by
  have hacc : (c.accessed k).overlap = c.overlap := by cases k <;> rfl
  calc c'.overlap = (putFront w.f₃ ((c.accessed k).granted k w.credit)).overlap := congrArg Caches.overlap w.after
    _ = ((c.accessed k).granted k w.credit).overlap := rfl
    _ = c.overlap + w.credit.toNat := by
        unfold granted
        split_ifs with h
        · rw [hacc, h]
          rfl
        · rw [← hacc]

theorem replays : c'.replays = c.replays + w.replay := by
  have hacc : (c.accessed k).replays = c.replays := by cases k <;> rfl
  calc c'.replays = (putFront w.f₃ ((c.accessed k).granted k w.credit)).replays := congrArg Caches.replays w.after
    _ = ((c.accessed k).granted k w.credit).replays := rfl
    _ = c.replays + w.replay := by
        unfold granted replay
        split_ifs with h
        · rw [hacc]
          rfl
        · rw [← hacc]

include w in
theorem outcomes : c'.outcomes = c.outcomes ++ (c.daccess k).toList := by
  have hacc : (c.accessed k).outcomes = c.outcomes ++ (c.daccess k).toList := by
    unfold accessed daccess
    cases k.mem <;> simp
  -- a replay is not an outcome of the program's access
  calc c'.outcomes = (putFront w.f₃ ((c.accessed k).granted k w.credit)).outcomes := congrArg Caches.outcomes w.after
    _ = ((c.accessed k).granted k w.credit).outcomes := rfl
    _ = (c.accessed k).outcomes := by
        unfold granted
        split_ifs <;> rfl
    _ = c.outcomes ++ (c.daccess k).toList := hacc

/-- a credit is granted to a store, with both caches enabled -/
theorem credit_store (h : w.credit ≠ 0) :
    ∃ a, k = .store a ∧ cfg.icache.enabled = true ∧ cfg.dcache.enabled = true := by
  have hx := w.credited ▸ h
  obtain ⟨a, target, hk, -, -, -, -, hc⟩ := creditOf_ne_zero hx
  exact ⟨a, hk, cacheOverlapCredit_enabled (hc ▸ hx)⟩

/-- the D-cache after the instruction is the D-cache after its access, replayed or not -/
theorem dcache : c'.dcache.contents = (c.accessed k).dcache.contents ∧
    c'.dcache.stats = (c.accessed k).dcache.stats.addReads w.replay 0 0 := by
  have hafter : c'.dcache = ((c.accessed k).granted k w.credit).dcache := (congrArg Caches.dcache w.after).trans rfl
  rw [hafter]
  unfold granted replay
  by_cases h : w.credit = 0
  · rw [if_pos h, if_pos h]
    exact ⟨rfl, by simp [CacheStats.addReads]⟩
  · obtain ⟨a, hk, -, hd⟩ := w.credit_store h
    rw [if_neg h, if_neg h]
    subst hk
    exact ⟨DirectMappedCacheModel.replay_contents c.dcache a, DirectMappedCacheModel.replay_stats hd c.dcache a⟩

include w in
/-- **The D-cache contents evolve on their own**, by the accesses of the loads and stores. -/
theorem dcontents : c'.dcache.contents = match k.mem with
    | some (a, wr) => cfg.dcache.store c.dcache.contents a wr
    | none => c.dcache.contents := by
  rw [w.dcache.1]
  unfold accessed
  cases k.mem with
  | none => rfl
  | some m => exact DirectMappedCacheModel.access_store c.dcache m.1 m.2

theorem dstats : c'.dcache.stats = (match k.mem with
    | some (a, _) => cfg.dcache.count c.dcache.stats (cfg.dcache.outcome c.dcache.contents a)
    | none => c.dcache.stats).addReads w.replay 0 0 := by
  rw [w.dcache.2]
  unfold accessed
  cases k.mem with
  | none => rfl
  | some m =>
    congr 1
    exact DirectMappedCacheModel.access_count c.dcache m.1 m.2

end Charged

end Caches

end Rv32im
