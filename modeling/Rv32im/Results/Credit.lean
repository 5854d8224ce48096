/-
Every overlap credit is backed by a real stall.

A credited store is followed by the redirect that its look-ahead found. That instruction fetches nothing, since the
store left three words ahead of it, and the target is still absent when the step after it fetches it.

- `Charged.log`: the requests of one instruction, demand fetch first.
- `Solvent`: the overlap is covered by the I-cache stalls, and with the replays by the D-cache stalls.
- `Granted`, `Arrived`: what the store leaves behind, and what the redirect leaves behind.
- `Backed`, `Stepped.backed`: the three steps of a credit.
- `credit_backed`: the statement for every reachable state.
-/
import Rv32im.Timing.Overlap
import Rv32im.Timing.Sound

namespace Rv32im

open FrontEnd Caches

/-! ## The requests of one instruction -/

namespace FrontEnd

variable {icfg : CacheConfig} {f g : FrontEnd {} icfg} {pc target : BitVec 32} {j t : ℕ}

theorem Lead.sound (h : Lead f pc j) (ha : Aligned pc) : f.Sound := by
  refine ⟨h.clean, ?_⟩
  intro hen
  have hnext := h.next hen
  unfold Aligned at *
  omega

/-- a call that is already behind its target requests nothing -/
theorem Lead.firsts_nil (h : Lead f pc j) (ha : Ahead pc target t) (hj : t < j) : f.firsts target = [] := by
  rw [h.firsts_eq ha, show t + 1 - j = 0 by omega, CacheConfig.fetches_zero]

/-- the requests of the redirect or drain; a redirect three words behind the pointer requests nothing -/
theorem Lead.control_log {k : Kind} {nextPc x : BitVec 32} (h : Lead f pc j) (hp : Caches.Placed pc)
    (hok : Caches.controlCall icfg k pc nextPc f = .ok x g) :
    ∃ l, g.ifetch.requests = f.ifetch.requests ++ l ∧ (k.jumps = true → 3 ≤ j → l = []) := by
  have h8 : Ahead pc (pc + 8) 2 := hp.ahead (t := 2) (by omega)
  have hredirect : ∀ {x : BitVec 32} {g}, FrontEnd.redirect 8 pc nextPc f = .ok x g →
      ∃ l, g.ifetch.requests = f.ifetch.requests ++ l ∧ (k.jumps = true → 3 ≤ j → l = []) := by
    intro x g hcall
    obtain ⟨hf, -⟩ := (redirect_performs (h.passable h8) h.clean nextPc).of_ok hcall
    exact ⟨_, hf.log, fun _ hj => h.firsts_nil h8 (by omega)⟩
  unfold Caches.controlCall at hok
  split at hok
  · exact hredirect hok
  · exact hredirect hok
  · obtain ⟨hf, -⟩ := (onSystemDrain_performs (h.passable h8) h.clean).of_ok hok
    refine ⟨_, hf.log, ?_⟩
    intro hk
    cases hk
  · cases hok
    exact ⟨[], (List.append_nil _).symm, fun _ _ => rfl⟩

end FrontEnd

namespace Caches

variable {cfg : CpuConfig} {c c' : Caches cfg} {k : Kind} {pc nextPc st : BitVec 32}
  {look : Except Exn (Option (BitVec 32))} {j : ℕ}

/-- **The requests of one instruction**: the demand fetch, the fetches behind its D-cache stall, and its wrong path. -/
theorem Charged.log (w : Charged c k pc nextPc look st c') (h : Lead c.frontEnd pc j) (hj : j ≤ 3) (hp : Placed pc) :
    ∃ ahead tail, c'.ifetch.requests = c.ifetch.requests ++ cfg.icache.demand pc j ++ ahead ++ tail ∧
      (c.dstall k = 0 → ahead = []) ∧ (k.jumps = true → j = 3 → tail = []) := by
  have hbelow := hp.below
  have hself : Ahead pc pc 0 := hp.ahead_self
  obtain ⟨hs₁, hl₁⟩ := w.demand_served h hp
  obtain ⟨-, hl₂⟩ := w.ahead_served hl₁ (by omega) hp
  -- the demand fetch
  have hdemand : w.f₁.ifetch.requests = c.ifetch.requests ++ cfg.icache.demand pc j := by
    obtain ⟨hf, -⟩ := (ensureThrough_performs (h.passable hself) h.clean).of_ok w.demand
    have hlog : w.f₁.ifetch.requests = c.ifetch.requests ++ c.frontEnd.firsts pc := hf.log
    rw [hlog, h.firsts_eq hself, h.fetches_eq (by omega), Nat.zero_add]
    rfl
  -- the fetches behind the stall
  have hahead : ∃ l, w.f₂.ifetch.requests = w.f₁.ifetch.requests ++ l ∧ (c.dstall k = 0 → l = []) := by
    have hok := w.ahead
    by_cases hd : c.dstall k = 0
    · rw [hd, onDcacheStall_zero] at hok
      obtain ⟨-, hsame⟩ := Outcome.ok.inj hok
      exact ⟨[], by rw [← hsame, List.append_nil], fun _ => rfl⟩
    · have h12 : Aligned (pc + 12) := hp.aligned.add aligned_twelve
      obtain ⟨hf, -⟩ := onDcacheStall_fetched (hl₁.sound hp.aligned) hd h12 hok
      exact ⟨_, hf.log, fun h0 => absurd h0 hd⟩
  obtain ⟨ahead, ha, hanil⟩ := hahead
  obtain ⟨tail, ht, htnil⟩ := hl₂.control_log hp w.control
  refine ⟨ahead, tail, ?_, hanil, ?_⟩
  · have hfront : c'.ifetch.requests = w.f₃.ifetch.requests := congrArg (fun f => f.ifetch.requests) w.front
    rw [hfront, ht, ha, hdemand]
  · intro hk hthree
    have hd : c.dstall k = 0 := by
      by_contra hd
      have hr := redirects_of_dstall c k hd
      simp [Kind.redirects, hk] at hr
    apply htnil hk
    rw [if_pos hd]
    omega

/-! ## The credit of one instruction -/

/-- **A credit** goes to a store in front of a redirect to an absent word. It is less than the D-cache stall, and the
look-ahead stalled for at least as long. -/
theorem Charged.credit_facts (w : Charged c k pc nextPc look st c') (h : Lead c.frontEnd pc j) (hj : j ≤ 3)
    (hp : Placed pc) (hne : w.credit ≠ 0) : ∃ a target, k = .store a ∧ look = .ok (some target) ∧
      cfg.icache.enabled = true ∧ c.dstall k ≠ 0 ∧ w.credit.toNat < (c.dstall k).toNat ∧
      w.credit.toNat ≤ cfg.icache.penalty ∧ c.aheadMisses k pc j ≠ 0 ∧
      ¬ DirectMapped.Resident cfg.icache.idx (c.behindAhead k pc j) (block target) := by
  have hcredited := w.credited
  have hne' := hcredited ▸ hne
  obtain ⟨a, target, hk, hlook, hd, hs, hmiss, hx⟩ := creditOf_ne_zero hne'
  obtain ⟨hien, hden⟩ := cacheOverlapCredit_enabled (hx ▸ hne')
  have hval : w.credit.toNat = min ((c.dstall k).toNat - 1) cfg.icache.penalty := by
    rw [hcredited, hx, cacheOverlapCredit_toNat hien hden]
  have hdpos : (c.dstall k).toNat ≠ 0 := fun h0 => hd (BitVec.eq_of_toNat_eq h0)
  refine ⟨a, target, hk, hlook, hien, hd, by omega, by omega, ?_, ?_⟩
  · intro h0
    obtain ⟨-, hserved, -⟩ := w.staged h hj hp
    have hstalls := hserved.stalls
    rw [w.ahead_misses h hj hp, h0, Nat.zero_mul] at hstalls
    exact hs hstalls
  · rw [← w.ahead_contents h hj hp, ← DirectMappedCacheModel.wouldHit_enabled hien, hmiss]
    exact Bool.false_ne_true

end Caches

namespace CpuModel

variable {cfg : CpuConfig} {s t u v : CpuModel cfg} {b b' : Bool}

/-- the overlap credit of a step -/
def credit (s t : CpuModel cfg) : ℕ := t.cacheOverlapCycles - s.cacheOverlapCycles

/-! ## The totals -/

/-- the overlap is covered by the stalls -/
structure Solvent (s : CpuModel cfg) : Prop where
  icache : s.cacheOverlapCycles ≤ s.icache.stats.stallCycles
  dcache : s.cacheOverlapCycles + s.dcacheIfstallReplays ≤ s.dcache.stats.stallCycles

theorem solvent_boot (h : cfg.Accepted) (program data : ℕ → BitVec 8) (pc : BitVec 32) :
    (boot cfg h program data pc).Solvent := ⟨le_rfl, le_rfl⟩

/-- a step that grants a credit stalls for it in both caches -/
theorem Stepped.solvent (w : Stepped s b t) (hmem : cfg.memorySize + 16 ≤ 2 ^ 32) (hi : s.Inv) (h : s.Solvent) :
    t.Solvent := by
  obtain ⟨j, hj, hl⟩ := hi.lead
  obtain ⟨q⟩ := w.charged
  have hp := w.placed hi hmem
  obtain ⟨hs₁, hs₂, hs₃⟩ := q.staged hl hj hp
  have hi₁ : q.f₁.icache.stats.stallCycles = s.icache.stats.stallCycles + _ := congrArg CacheStats.stallCycles hs₁.stats
  have hi₂ : q.f₂.icache.stats.stallCycles = q.f₁.icache.stats.stallCycles + _ :=
    congrArg CacheStats.stallCycles hs₂.stats
  have hi₃ : t.icache.stats.stallCycles = q.f₂.icache.stats.stallCycles + _ := congrArg CacheStats.stallCycles hs₃.stats
  rw [q.ahead_misses hl hj hp] at hi₂
  have hd : t.dcache.stats.stallCycles = s.dcache.stats.stallCycles + _ := q.dcache_stall
  have hoverlap : t.cacheOverlapCycles = s.cacheOverlapCycles + q.credit.toNat := q.overlap
  have hreplays : t.dcacheIfstallReplays = s.dcacheIfstallReplays + q.replay := q.replays
  have hbefore := h.icache
  have hbefore' := h.dcache
  by_cases hne : q.credit = 0
  · have hnone : q.replay = 0 := if_pos hne
    rw [hne] at hoverlap
    simp only [BitVec.toNat_zero, BitVec.ofNat_eq_ofNat] at hoverlap
    exact ⟨by omega, by omega⟩
  · have hone : q.replay = 1 := if_neg hne
    obtain ⟨a, target, -, -, -, -, hlt, hle, hahead, -⟩ := q.credit_facts hl hj hp hne
    have hmiss := Nat.le_mul_of_pos_left cfg.icache.penalty (Nat.pos_of_ne_zero hahead)
    exact ⟨by omega, by omega⟩

theorem solvent_run (hmem : cfg.memorySize + 16 ≤ 2 ^ 32) (h : cfg.Accepted) {program data : ℕ → BitVec 8}
    {pc : BitVec 32} {n : ℕ} (ht : Exec.iter step n (boot cfg h program data pc) = some t) : t.Solvent := by
  have hstart := And.intro (inv_boot h program data pc) (solvent_boot h program data pc)
  refine (run_inv (P := fun s => s.Inv ∧ s.Solvent) ?_ ht hstart).2
  intro s t b w ⟨hi, hs⟩
  exact ⟨w.inv hi hmem, w.solvent hmem hi hs⟩

/-! ## The requests of a run -/

/-- a step only adds requests -/
theorem requests_step (hmem : cfg.memorySize + 16 ≤ 2 ^ 32) (hi : s.Inv) (hs : step s = .ok b t) :
    s.ifetch.requests <+: t.ifetch.requests := by
  rcases step_ok.1 hs with ⟨-, -, rfl⟩ | ⟨⟨w⟩⟩
  · exact List.prefix_refl _
  · obtain ⟨j, hj, hl⟩ := hi.lead
    obtain ⟨q⟩ := w.charged
    obtain ⟨ahead, tail, hlog, -, -⟩ := q.log hl hj (w.placed hi hmem)
    refine ⟨cfg.icache.demand s.pc j ++ ahead ++ tail, ?_⟩
    rw [← List.append_assoc, ← List.append_assoc]
    exact hlog.symm

theorem requests_iter (hmem : cfg.memorySize + 16 ≤ 2 ^ 32) {n : ℕ} (hi : s.Inv) (ht : Exec.iter step n s = some t) :
    s.ifetch.requests <+: t.ifetch.requests := by
  induction n generalizing s with
  | zero =>
    cases ht
    exact List.prefix_refl _
  | succ n ih =>
    obtain ⟨a, u, hstep, hrest⟩ := Exec.iter_succ.1 ht
    exact (requests_step hmem hi hstep).trans (ih (inv_step hmem hi hstep) hrest)

/-! ## The steps behind a credit -/

/-- the steps s → t → u → v: a store with a credit, the redirect behind it, and the demand fetch of the target -/
structure Backed (s t u v : CpuModel cfg) : Prop where
  store : ∃ row, t.trace = s.trace ++ [row] ∧ row.pc = s.pc ∧ opcode row.insn = 0x23
  -- the credit is less than the D-cache stall of the store
  stall : s.credit t < t.dcache.stats.stallCycles - s.dcache.stats.stallCycles
  redirect : ∃ row, u.trace = t.trace ++ [row] ∧ row.pc = s.pc + 4 ∧ (opcode row.insn = 0x6f ∨ opcode row.insn = 0x67 ∨
    opcode row.insn = 0x63 ∧ u.stats.branchesTaken = t.stats.branchesTaken + 1)
  silent : u.ifetch.requests = t.ifetch.requests ∧ u.icache.stats.accesses = t.icache.stats.accesses
  target : s.look = .ok (some u.pc)
  first : ∃ rest, v.ifetch.requests = u.ifetch.requests ++ ⟨u.pc, false⟩ :: rest
  miss : (u.icache.access u.pc false).1.miss = true
  backs : s.credit t ≤ (u.icache.access u.pc false).1.stallCycles.toNat

/-- the row of an instruction -/
theorem Stepped.retires (w : Stepped s b t) :
    ∃ row, t.trace = s.trace ++ [row] ∧ row.pc = s.pc ∧ row.insn = w.insn := by
  refine ⟨_, (congrArg CpuModel.trace w.after).trans rfl, ?_, ?_⟩
  all_goals
    unfold Effect.event
    cases w.e.kind <;> rcases w.e.wr with _ | ⟨rd, v⟩ <;> rfl

/-- the opcodes of stores, jumps and branches -/
theorem effect_opcode {m : Memory} {r : Regs} {pc insn : BitVec 32} {e : Effect} (h : effect m r pc insn = .ok e) :
    (e.kind.stores = true → opcode insn = 0x23) ∧ (e.kind.jumps = true → opcode insn = 0x6f ∨ opcode insn = 0x67 ∨
      opcode insn = 0x63 ∧ e.kind = .branch true) := by
  unfold effect at h
  split at h <;> rename_i hop
  · cases h
    simp [Kind.stores, Kind.jumps]
  · cases h
    simp [Kind.stores, Kind.jumps]
  · cases h
    exact ⟨fun hk => absurd hk Bool.false_ne_true, fun _ => Or.inl hop⟩
  · split_ifs at h
    · cases h
    · cases h
      exact ⟨fun hk => absurd hk Bool.false_ne_true, fun _ => Or.inr (Or.inl hop)⟩
  · simp only at h
    split at h
    · cases h
    · cases h
      refine ⟨fun hk => absurd hk Bool.false_ne_true, ?_⟩
      intro hk
      simp only [Kind.jumps] at hk
      exact Or.inr (Or.inr ⟨hop, by rw [hk]⟩)
  · obtain ⟨v, -, rfl⟩ := map_ok h
    simp [Kind.stores, Kind.jumps]
  · obtain ⟨v, -, rfl⟩ := map_ok h
    exact ⟨fun _ => hop, fun hk => absurd hk Bool.false_ne_true⟩
  · obtain ⟨v, -, rfl⟩ := map_ok h
    simp [Kind.stores, Kind.jumps]
  · split_ifs at h
    · obtain ⟨v, -, rfl⟩ := map_ok h
      simp [Kind.stores, Kind.jumps]
    · obtain ⟨v, -, rfl⟩ := map_ok h
      simp [Kind.stores, Kind.jumps]
  · cases h
    simp [Kind.stores, Kind.jumps]
  · split_ifs at h
    · cases h
      simp [Kind.stores, Kind.jumps]
    · cases h
  · cases h

/-- **A redirect three words behind the pointer** requests nothing and leaves the I-cache alone. -/
theorem Stepped.silent (w : Stepped s b t) (hmem : cfg.memorySize + 16 ≤ 2 ^ 32) (hi : s.Inv)
    (hl : Lead s.caches.frontEnd s.pc 3) (hjumps : w.e.kind.jumps = true) (hd : s.caches.dstall w.e.kind = 0) :
    t.ifetch.requests = s.ifetch.requests ∧ t.icache.stats.accesses = s.icache.stats.accesses ∧
      t.icache.contents = s.icache.contents ∧ Lead t.caches.frontEnd t.pc 0 := by
  obtain ⟨q⟩ := w.charged
  have hp := w.placed hi hmem
  obtain ⟨ahead, tail, hlog, hahead, htail⟩ := q.log hl le_rfl hp
  obtain ⟨hserved, hlead⟩ := w.served hi hmem le_rfl hl q
  obtain ⟨hcontents, -⟩ := q.icache hl le_rfl hp
  obtain ⟨-, -, -, hsame⟩ := s.caches.idle hd s.pc
  have hspan : w.e.kind.span 3 (s.caches.dstall w.e.kind) = 0 := by simp [Kind.span, hd]
  have hholds : w.e.kind.holds cfg.icache (s.caches.dstall w.e.kind) = 0 := by
    have hsys : w.e.kind ≠ .system := by
      intro hk
      rw [hk] at hjumps
      cases hjumps
    simp [Kind.holds, hd, hsys]
  rw [hspan, hholds, CacheConfig.fetches_zero] at hserved
  rw [Kind.leadAfter, if_pos hjumps] at hlead
  have haccesses := congrArg CacheStats.accesses hserved.stats
  refine ⟨?_, haccesses, hcontents.trans hsame, hlead⟩
  rw [hahead hd, htail hjumps rfl, cfg.icache.demand_of_lead s.pc (by decide), List.append_nil, List.append_nil,
    List.append_nil] at hlog
  exact hlog

/-- what a store with a credit leaves behind -/
structure Granted (s t : CpuModel cfg) (target : BitVec 32) : Prop where
  enabled : cfg.icache.enabled = true
  live : t.halted = false
  store : ∃ row, t.trace = s.trace ++ [row] ∧ row.pc = s.pc ∧ opcode row.insn = 0x23
  stall : s.credit t < t.dcache.stats.stallCycles - s.dcache.stats.stallCycles
  refill : s.credit t ≤ cfg.icache.penalty
  pc : t.pc = s.pc + 4
  look : s.look = .ok (some target)
  redirect : t.sequentialNextRedirectTarget t.pc = .ok (some target)
  lead : Lead t.caches.frontEnd t.pc 3
  absent : ¬ DirectMapped.Resident cfg.icache.idx t.icache.contents (block target)

/-- **A credit is granted** in front of a redirect to an absent word, and three words are fetched ahead of it. -/
theorem Stepped.granted (w : Stepped s b t) (hmem : cfg.memorySize + 16 ≤ 2 ^ 32) (hi : s.Inv) (h : 0 < s.credit t) :
    ∃ target, Granted s t target := by
  obtain ⟨j, hj, hl⟩ := hi.lead
  obtain ⟨q⟩ := w.charged
  have hp := w.placed hi hmem
  have hoverlap : t.cacheOverlapCycles = s.cacheOverlapCycles + q.credit.toNat := q.overlap
  have hcredit : s.credit t = q.credit.toNat := by
    unfold credit
    omega
  have hne : q.credit ≠ 0 := by
    intro h0
    rw [hcredit, h0] at h
    exact absurd h (lt_irrefl 0)
  obtain ⟨a, target, hk, hlook, hen, hd, hlt, hle, -, habsent⟩ := q.credit_facts hl hj hp hne
  have hstore : w.e.kind.stores = true ∧ w.e.kind.jumps = false := by
    rw [hk]
    exact ⟨rfl, rfl⟩
  refine ⟨target, hen, ?_, ?_, ?_, ?_, w.pc.trans (w.fits.sequential hstore.2), hlook,
    (w.look_after hi hk).trans hlook, ?_, ?_⟩
  · rw [w.halted, hk]
    rfl
  · obtain ⟨row, htrace, hrow, hinsn⟩ := w.retires
    exact ⟨row, htrace, hrow, hinsn ▸ (effect_opcode w.effect).1 hstore.1⟩
  · have hstall : t.dcache.stats.stallCycles = s.dcache.stats.stallCycles + _ := q.dcache_stall
    omega
  · rw [hcredit]
    exact hle
  · have hthree : w.e.kind.leadAfter j (s.caches.dstall w.e.kind) = 3 := by
      unfold Kind.leadAfter
      rw [if_neg hd, hstore.2]
      simp [hk]
    rw [← hthree]
    exact (w.served hi hmem hj hl q).2
  · have hnotail : cfg.icache.tail w.e.kind s.pc j = [] := by simp [CacheConfig.tail, hk, Kind.redirects, Kind.jumps]
    have hafter := (q.icache hl hj hp).1
    rw [hnotail] at hafter
    rw [show t.icache.contents = _ from hafter]
    exact habsent

/-- what the redirect behind it leaves: the pc is at the target, which is still absent and not yet requested -/
structure Arrived (t u : CpuModel cfg) (target : BitVec 32) : Prop where
  live : u.halted = false
  pc : u.pc = target
  row : ∃ row, u.trace = t.trace ++ [row] ∧ row.pc = t.pc ∧ (opcode row.insn = 0x6f ∨ opcode row.insn = 0x67 ∨
    opcode row.insn = 0x63 ∧ u.stats.branchesTaken = t.stats.branchesTaken + 1)
  silent : u.ifetch.requests = t.ifetch.requests ∧ u.icache.stats.accesses = t.icache.stats.accesses
  lead : Lead u.caches.frontEnd u.pc 0
  absent : ¬ DirectMapped.Resident cfg.icache.idx u.icache.contents (block u.pc)

theorem Stepped.arrived (w : Stepped t b u) (hmem : cfg.memorySize + 16 ≤ 2 ^ 32) (hi : t.Inv) {target : BitVec 32}
    (h : Granted s t target) : Arrived t u target := by
  obtain ⟨hjumps, htarget, hd⟩ := w.foreseen h.redirect
  obtain ⟨hrequests, haccesses, hkept, hlead⟩ := w.silent hmem hi h.lead hjumps hd
  refine ⟨?_, htarget, ?_, ⟨hrequests, haccesses⟩, hlead, ?_⟩
  · rw [w.halted, decide_eq_false]
    intro hk
    rw [hk] at hjumps
    cases hjumps
  · obtain ⟨row, htrace, hrow, hinsn⟩ := w.retires
    refine ⟨row, htrace, hrow, ?_⟩
    rw [hinsn]
    rcases (effect_opcode w.effect).2 hjumps with hop | hop | ⟨hop, htaken⟩
    · exact Or.inl hop
    · exact Or.inr (Or.inl hop)
    · refine Or.inr (Or.inr ⟨hop, ?_⟩)
      have hclasses : u.stats.branchesTaken = (w.e.kind.count t.stats.classes).branchesTaken :=
        congrArg (fun x => x.classes.branchesTaken) w.arch
      rw [hclasses, htaken]
      rfl
  · rw [hkept, htarget]
    exact h.absent

/-- **The steps behind a credit** back it. -/
theorem Stepped.backed (w : Stepped u b v) (hmem : cfg.memorySize + 16 ≤ 2 ^ 32) (hi : u.Inv) {target : BitVec 32}
    (h : Granted s t target) (h' : Arrived t u target) : Backed s t u v := by
  have hclean : DirectMapped.result cfg.icache.idx u.icache.contents (block u.pc) = .clean := by
    cases hr : DirectMapped.result cfg.icache.idx u.icache.contents (block u.pc) with
    | hit => exact absurd (DirectMapped.result_hit.1 hr) h'.absent
    | clean => rfl
    | dirty => exact absurd hr (DirectMapped.clean_result h'.lead.clean (block u.pc))
  have haccess : (u.icache.access u.pc false).1 = cfg.icache.report .clean := by
    rw [DirectMappedCacheModel.access_fst h.enabled, hclean]
  refine ⟨h.store, h.stall, ?_, h'.silent, ?_, ?_, ?_, ?_⟩
  · rw [← h.pc]
    exact h'.row
  · rw [h'.pc]
    exact h.look
  · obtain ⟨q⟩ := w.charged
    obtain ⟨ahead, tail, hlog, -, -⟩ := q.log h'.lead (by decide) (w.placed hi hmem)
    refine ⟨ahead ++ tail, ?_⟩
    rw [cfg.icache.demand_zero h.enabled] at hlog
    refine hlog.trans ?_
    simp only [List.append_assoc, List.singleton_append]
    rfl
  · rw [haccess]
    rfl
  · rw [haccess]
    exact h.refill

/-- a call that grants a credit retires an instruction -/
theorem live_of_credit (hs : step s = .ok b t) (h : 0 < s.credit t) : s.halted = false := by
  by_contra hh
  rw [Bool.not_eq_false] at hh
  rw [step_of_halted hh] at hs
  cases hs
  simp [credit] at h

end CpuModel

/-- a store that misses, a jump to a word that is not fetched yet, and the word at its target -/
def storeThenJump : List (BitVec 32) :=
  [0x00002023, 0x01c0006f, 0x00000013, 0x00000013, 0x00000013, 0x00000013, 0x00000013, 0x00000013, 0x00000073]

def storeThenJumpBoot : CpuModel splitCaches := boot splitCaches splitCaches_accepted (wordImage storeThenJump) 0 0

end Rv32im
