/-
More D-cache lines.

Two models whose D-caches have N and M lines, N dividing M, compute the same. An access that stalls the larger D-cache
stalls the smaller one, so the fetch pointer of the model with M lines leads by at most as much, and its I-cache is
short of the words between the two pointers only (`Trailing`). A store that earns an overlap credit with N lines
therefore earns one with M lines too, or it hits there. A credit behind a clean victim is shorter than one behind a
dirty victim, and the victim may be dirty with N lines and clean with M. This difference is all that M lines can lose.

- `Outgrown`: the relation between the two runs. `Stepped.outgrown`: one step of each keeps it.
- `Itemized`: the overlap of a run, from its replays and the dirty victims among them.
- `data_capacity`: misses, write-backs, stalls and cycles of a run that halts.
- `conflictPair_slower`: a program that is a cycle slower with two lines than with one.
-/
import Rv32im.Results.Isolation
import Rv32im.Results.CacheHistory
import Rv32im.Timing.Overlap

namespace Rv32im

open FrontEnd Caches

/-! ## The words between two leads -/

namespace CacheConfig

variable (icfg : CacheConfig) (pc : BitVec 32)

/-- the first-time requests of the words from i to k ahead of `pc` -/
def between (i k : ℕ) : List Request := icfg.fetches (pc + BitVec.ofNat 32 (4 * i)) (k - i)

theorem between_append {i m k : ℕ} (him : i ≤ m) (hmk : m ≤ k) :
    icfg.between pc i k = icfg.between pc i m ++ icfg.between pc m k := by
  have hcount : k - i = (m - i) + (k - m) := by omega
  have hstart : pc + BitVec.ofNat 32 (4 * i) + BitVec.ofNat 32 (4 * (m - i)) = pc + BitVec.ofNat 32 (4 * m) := by
    rw [BitVec.add_assoc, ← BitVec.ofNat_add]
    congr 2
    omega
  unfold between
  rw [hcount, fetches_append, hstart]

theorem between_self (i : ℕ) : icfg.between pc i i = [] := by
  rw [between, Nat.sub_self, fetches_zero]

theorem between_next (i k : ℕ) : icfg.between pc (1 + i) (1 + k) = icfg.between (pc + 4) i k := by
  have hcount : 1 + k - (1 + i) = k - i := by omega
  have hstart : pc + BitVec.ofNat 32 (4 * (1 + i)) = pc + 4 + BitVec.ofNat 32 (4 * i) := by
    rw [Nat.mul_add, BitVec.ofNat_add, ← BitVec.add_assoc]
    rfl
  unfold between
  rw [hcount, hstart]

theorem demand_eq (j : ℕ) : icfg.demand pc j = icfg.between pc j (max j 1) := by
  have hcount : 1 - j = max j 1 - j := by omega
  unfold demand between
  rw [hcount]

theorem ahead_eq {d : BitVec 32} (hd : d ≠ 0) (j : ℕ) : icfg.ahead pc j d = icfg.between pc (max j 1) 4 := by
  unfold ahead between
  rw [if_neg hd]

end CacheConfig

/-- a shorter lead with a D-cache stall only where the longer one has one stays shorter -/
theorem Kind.leadAfter_mono (k : Kind) {i j : ℕ} {d d' : BitVec 32} (hij : i ≤ j) (hj : j ≤ 3) (hd : d = 0 → d' = 0) :
    k.leadAfter i d' ≤ k.leadAfter j d := by
  have hle := k.leadAfter_le (hij.trans hj) d'
  unfold leadAfter at hle ⊢
  by_cases h0 : d = 0
  · rw [hd h0, h0]
    split_ifs <;> omega
  · rw [if_neg h0]
    split_ifs at hle ⊢ <;> omega

/-- the requests of a stage are words from the lead on -/
theorem FrontEnd.Lead.fetches_between {icfg : CacheConfig} {f : FrontEnd {} icfg} {pc : BitVec 32} {j : ℕ}
    (h : Lead f pc j) (hb : pc.toNat + 4 * j < 2 ^ 32) (n : ℕ) :
    icfg.fetches f.ifetch.nextSequentialPc n = icfg.between pc j (j + n) := by
  unfold CacheConfig.between
  rw [h.fetches_eq hb, Nat.add_sub_cancel_left]

/-! ## Two leads -/

def CpuConfig.withDataLines (cfg : CpuConfig) (lines : ℕ) : CpuConfig :=
  { cfg with dcache := cfg.dcache.withLines lines }

namespace Caches

variable {cfg : CpuConfig} {lines : ℕ}

/-- the pointer of `c'` leads by i ≤ j words, and the I-cache of `c` has read the words between the pointers as well -/
structure Trailing (c : Caches cfg) (c' : Caches (cfg.withDataLines lines)) (pc : BitVec 32) (i j : ℕ) : Prop where
  le : i ≤ j
  short : j ≤ 3
  lead : Lead c.frontEnd pc j
  lead' : Lead c'.frontEnd pc i
  contents : c.icache.contents =
    DirectMapped.readAll cfg.icache.idx c'.icache.contents (blocks (cfg.icache.between pc i j))

namespace Trailing

variable {c : Caches cfg} {c' : Caches (cfg.withDataLines lines)} {k : Kind} {pc : BitVec 32} {i j : ℕ}
  {look : Except Exn (Option (BitVec 32))} (h : Trailing c c' pc i j)

include h

/-- further words, read behind the longer lead -/
theorem readAll_from {m : ℕ} (hm : j ≤ m) :
    DirectMapped.readAll cfg.icache.idx c.icache.contents (blocks (cfg.icache.between pc j m)) =
      DirectMapped.readAll cfg.icache.idx c'.icache.contents (blocks (cfg.icache.between pc i m)) := by
  calc DirectMapped.readAll cfg.icache.idx c.icache.contents (blocks (cfg.icache.between pc j m))
      = DirectMapped.readAll cfg.icache.idx c'.icache.contents
          (blocks (cfg.icache.between pc i j ++ cfg.icache.between pc j m)) := by
        rw [h.contents, blocks_append, DirectMapped.readAll_append]
    _ = DirectMapped.readAll cfg.icache.idx c'.icache.contents (blocks (cfg.icache.between pc i m)) := by
        rw [← cfg.icache.between_append pc h.le hm]

/-- behind both demand fetches, the words between the leads are still the difference -/
theorem behindDemand : c.behindDemand pc j = DirectMapped.readAll cfg.icache.idx (c'.behindDemand pc i)
    (blocks (cfg.icache.between pc (max i 1) (max j 1))) := by
  have hle := h.le
  have hdemand : c'.behindDemand pc i = DirectMapped.readAll cfg.icache.idx c'.icache.contents
      (blocks (cfg.icache.between pc i (max i 1))) :=
    congrArg (fun l => DirectMapped.readAll cfg.icache.idx c'.icache.contents (blocks l)) (cfg.icache.demand_eq pc i)
  calc c.behindDemand pc j
      = DirectMapped.readAll cfg.icache.idx c.icache.contents (blocks (cfg.icache.between pc j (max j 1))) := by
        unfold Caches.behindDemand
        rw [cfg.icache.demand_eq]
    _ = DirectMapped.readAll cfg.icache.idx c'.icache.contents (blocks (cfg.icache.between pc i (max i 1) ++
          cfg.icache.between pc (max i 1) (max j 1))) := by
        rw [h.readAll_from (le_max_left j 1), cfg.icache.between_append pc (le_max_left i 1) (by omega)]
    _ = DirectMapped.readAll cfg.icache.idx (c'.behindDemand pc i)
          (blocks (cfg.icache.between pc (max i 1) (max j 1))) := by
        rw [hdemand, blocks_append, DirectMapped.readAll_append]

/-- the look-ahead from the shorter lead comes to the longer one, and goes on as the look-ahead from there -/
theorem ahead (hd : c.dstall k ≠ 0) (hd' : c'.dstall k ≠ 0) :
    (cfg.withDataLines lines).icache.ahead pc i (c'.dstall k) =
      cfg.icache.between pc (max i 1) (max j 1) ++ cfg.icache.ahead pc j (c.dstall k) := by
  have hle := h.le
  have hshort := h.short
  rw [cfg.icache.ahead_eq pc hd, ← cfg.icache.between_append pc (by omega) (by omega)]
  exact cfg.icache.ahead_eq pc hd' i

theorem behindAhead (hd : c.dstall k ≠ 0) (hd' : c'.dstall k ≠ 0) : c'.behindAhead k pc i = c.behindAhead k pc j := by
  unfold Caches.behindAhead
  rw [h.ahead hd hd', h.behindDemand, blocks_append, DirectMapped.readAll_append]
  rfl

/-- a look-ahead from the shorter lead misses at least as often -/
theorem aheadMisses (hd : c.dstall k ≠ 0) (hd' : c'.dstall k ≠ 0) :
    c.aheadMisses k pc j ≤ c'.aheadMisses k pc i := by
  unfold Caches.aheadMisses
  rw [h.ahead hd hd', h.behindDemand, blocks_append, DirectMapped.misses_append]
  exact Nat.le_add_left _ _

/-- **A credit that the smaller D-cache earns** is earned by the larger one, or its access hits there. -/
theorem earns (he : Earns c k pc look j) (hd' : c'.dstall k ≠ 0) : Earns c' k pc look i := by
  obtain ⟨a, target, hk, hlook, hd, hmiss, habsent⟩ := he
  have hle := h.aheadMisses hd hd'
  refine ⟨a, target, hk, hlook, hd', by omega, ?_⟩
  rw [h.behindAhead hd hd']
  exact habsent

/-- the words between the pointers, before the next instruction -/
theorem between_after (k : Kind) (d d' : BitVec 32) {nextPc : BitVec 32} (hred : d ≠ 0 → k.redirects = false)
    (hred' : d' ≠ 0 → k.redirects = false) (hseq : k.jumps = false → nextPc = pc + 4) :
    cfg.icache.between pc (i + k.span i d') (j + k.span j d) =
      cfg.icache.between nextPc (k.leadAfter i d') (k.leadAfter j d) := by
  have hspan := k.span_lead h.short hred
  have hspan' := k.span_lead (h.le.trans h.short) hred'
  by_cases hjumps : k.jumps = true
  · -- the wrong path ends at the same word, and the next instruction is not fetched yet
    have hzero : k.leadAfter j d = 0 ∧ k.leadAfter i d' = 0 := ⟨if_pos hjumps, if_pos hjumps⟩
    rw [if_pos hjumps] at hspan hspan'
    rw [hzero.1, hzero.2, (by omega : i + k.span i d' = 3), (by omega : j + k.span j d = 3),
      CacheConfig.between_self, CacheConfig.between_self]
  · rw [if_neg hjumps] at hspan hspan'
    rw [(by omega : i + k.span i d' = 1 + k.leadAfter i d'), (by omega : j + k.span j d = 1 + k.leadAfter j d),
      CacheConfig.between_next, hseq (by simpa using hjumps)]

/-- **One instruction of both** keeps the shorter lead behind the longer one. -/
theorem serve {nextPc st st' : BitVec 32} {look' : Except Exn (Option (BitVec 32))} {e : Caches cfg}
    {e' : Caches (cfg.withDataLines lines)} (q : Charged c k pc nextPc look st e)
    (q' : Charged c' k pc nextPc look' st' e') (hp : Placed pc) (hseq : k.jumps = false → nextPc = pc + 4)
    (hstall : c.dstall k = 0 → c'.dstall k = 0) :
    Trailing e e' nextPc (k.leadAfter i (c'.dstall k)) (k.leadAfter j (c.dstall k)) := by
  have hbelow := hp.below
  have hle := h.le
  have hshort := h.short
  obtain ⟨hserved, hl⟩ := q.serve h.lead h.short hp hseq
  obtain ⟨hserved', hl'⟩ := q'.serve h.lead' (h.le.trans h.short) hp hseq
  have hwords : cfg.icache.fetches c.ifetch.nextSequentialPc _ = _ :=
    h.lead.fetches_between (by omega) (k.span j (c.dstall k))
  have hwords' : (cfg.withDataLines lines).icache.fetches c'.ifetch.nextSequentialPc _ = cfg.icache.between _ _ _ :=
    h.lead'.fetches_between (by omega) (k.span i (c'.dstall k))
  have hcontents : e.icache.contents = DirectMapped.readAll cfg.icache.idx c.icache.contents _ := hserved.contents
  have hcontents' : e'.icache.contents = DirectMapped.readAll cfg.icache.idx c'.icache.contents _ := hserved'.contents
  rw [hwords, h.readAll_from (Nat.le_add_right _ _)] at hcontents
  rw [hwords'] at hcontents'
  have hred := redirects_of_dstall c k
  have hred' := redirects_of_dstall c' k
  have hmono := k.leadAfter_mono h.le h.short hstall
  have hspan := k.span_lead h.short hred
  have hspan' := k.span_lead (h.le.trans h.short) hred'
  refine ⟨hmono, k.leadAfter_le h.short _, hl, hl', ?_⟩
  rw [hcontents, hcontents', ← DirectMapped.readAll_append, ← blocks_append,
    ← h.between_after k (c.dstall k) (c'.dstall k) hred hred' hseq,
    ← cfg.icache.between_append pc (Nat.le_add_right _ _) (by omega)]

end Trailing

end Caches

/-! ## One access in both D-caches -/

/-- an instruction stalls for the D-cache exactly when its access misses -/
theorem Caches.dstall_zero {cfg : CpuConfig} (hd : 2 * cfg.dcache.memoryLatency.toNat + 7 < 2 ^ 32) (c : Caches cfg)
    (k : Kind) : c.dstall k = 0 ↔ k.tally (fun a => (cfg.dcache.outcome c.dcache.contents a).miss) = 0 := by
  rw [dstall_eq]
  unfold Kind.tally
  cases k.mem with
  | none => exact iff_of_true rfl rfl
  | some m =>
    refine (CacheConfig.outcome_stall_zero hd _ m.1).trans ?_
    simp

namespace CpuModel

variable {cfg : CpuConfig} {lines : ℕ} {s t : CpuModel cfg} {s' t' : CpuModel (cfg.withDataLines lines)} {b b' : Bool}

/-- `s'` has seen the run of `s` with a larger D-cache -/
structure Outgrown (s : CpuModel cfg) (s' : CpuModel (cfg.withDataLines lines)) : Prop where
  arch : s.arch = s'.arch
  trailing : ∃ i j, Trailing s.caches s'.caches s.pc i j
  paced : DirectMapped.Paced cfg.dcache.idx (cfg.withDataLines lines).dcache.idx s.dcache.contents s'.dcache.contents
    s.dcache.stats.writebacks s'.dcache.stats.writebacks
  misses : s'.dcache.stats.misses ≤ s.dcache.stats.misses
  -- a replay that the larger D-cache lacks is a miss that it saves
  replays : s.dcacheIfstallReplays + s'.dcache.stats.misses ≤ s'.dcacheIfstallReplays + s.dcache.stats.misses

section Step

variable (h : Outgrown s s') (hen : cfg.dcache.enabled = true) (hdvd : cfg.dcache.lines ∣ lines)

include h hen in
/-- the larger D-cache misses only where the smaller one does -/
theorem Outgrown.tally_le (k : Kind) :
    k.tally (fun a => ((cfg.withDataLines lines).dcache.outcome s'.dcache.contents a).miss) ≤
      k.tally (fun a => (cfg.dcache.outcome s.dcache.contents a).miss) := by
  unfold Kind.tally
  cases k.mem with
  | none => exact le_rfl
  | some m => exact CacheConfig.miss_withLines hen h.paced.included m.1

include h hen in
theorem Outgrown.dstall_zero (hlat : 2 * cfg.dcache.memoryLatency.toNat + 7 < 2 ^ 32) {k : Kind}
    (hd : s.caches.dstall k = 0) : s'.caches.dstall k = 0 := by
  have hlat' : 2 * (cfg.withDataLines lines).dcache.memoryLatency.toNat + 7 < 2 ^ 32 := hlat
  have hle := h.tally_le hen k
  rw [Caches.dstall_zero hlat] at hd
  rw [Caches.dstall_zero hlat']
  exact Nat.le_zero.1 (hle.trans_eq hd)

include h hen hdvd in
/-- one access of both D-caches -/
theorem Outgrown.access (w : Stepped s b t) (w' : Stepped s' b' t') : DirectMapped.Paced cfg.dcache.idx
    (cfg.withDataLines lines).dcache.idx t.dcache.contents t'.dcache.contents t.dcache.stats.writebacks
      t'.dcache.stats.writebacks := by
  obtain ⟨-, he⟩ := w.same w' h.arch
  obtain ⟨-, -, -, hcontents, -⟩ := w.dcache
  obtain ⟨-, -, -, hcontents', -⟩ := w'.dcache
  have hwriteback := w.tally.2
  have hwriteback' := w'.tally.2
  rw [← he] at hcontents' hwriteback'
  rw [hcontents, hcontents', hwriteback, hwriteback']
  unfold Kind.tally
  cases w.e.kind.mem with
  | none => exact h.paced
  | some m => exact CacheConfig.paced_withLines hen hdvd h.paced m.1 m.2

end Step

/-- a replay that the larger D-cache lacks is at a hit of it -/
theorem Outgrown.replay_le (h : Outgrown s s') (hsmall : cfg.Small) (hen : cfg.dcache.enabled = true) {k : Kind}
    {pc nextPc nextPc' st st' : BitVec 32} {look : Except Exn (Option (BitVec 32))} {c : Caches cfg}
    {c' : Caches (cfg.withDataLines lines)} {i j : ℕ} (q : Charged s.caches k pc nextPc look st c)
    (q' : Charged s'.caches k pc nextPc' look st' c') (htrail : Trailing s.caches s'.caches pc i j) (hp : Placed pc) :
    q.replay + k.tally (fun a => ((cfg.withDataLines lines).dcache.outcome s'.dcache.contents a).miss) ≤
      q'.replay + k.tally (fun a => (cfg.dcache.outcome s.dcache.contents a).miss) := by
  have hsmall' : (cfg.withDataLines lines).Small := hsmall
  have hle := h.tally_le hen k
  have hzero := Caches.dstall_zero hsmall.data s.caches k
  have hzero' := Caches.dstall_zero hsmall'.data s'.caches k
  by_cases he : Earns s.caches k pc look j
  · have hmiss : k.tally (fun a => (cfg.dcache.outcome s.dcache.contents a).miss) ≠ 0 := by
      intro h0
      obtain ⟨a, target, -, -, hd, -⟩ := he
      exact hd (hzero.2 h0)
    rw [q.replay_earned hsmall htrail.lead htrail.short hp he]
    by_cases hd' : s'.caches.dstall k = 0
    · have hhit : k.tally (fun a => ((cfg.withDataLines lines).dcache.outcome s'.dcache.contents a).miss) = 0 :=
        hzero'.1 hd'
      omega
    · rw [q'.replay_earned hsmall' htrail.lead' (htrail.le.trans htrail.short) hp (htrail.earns he hd')]
      omega
  · rw [(q.replay_unearned hsmall htrail.lead htrail.short hp he).2]
    omega

theorem outgrown_boot (h : cfg.Accepted) (h' : (cfg.withDataLines lines).Accepted) (program data : ℕ → BitVec 8)
    (pc : BitVec 32) :
    Outgrown (boot cfg h program data pc) (boot (cfg.withDataLines lines) h' program data pc) where
  arch := arch_boot h h' rfl program data pc
  trailing := by
    refine ⟨0, 0, le_rfl, by decide, lead_boot h program data pc, lead_boot h' program data pc, ?_⟩
    rw [CacheConfig.between_self]
    exact (boot_contents h program data pc).1.trans (boot_contents h' program data pc).1.symm
  paced := by
    rw [(boot_contents h program data pc).2, (boot_contents h' program data pc).2]
    exact DirectMapped.paced_empty
  misses := le_rfl
  replays := le_rfl

/-- **One step of each** keeps the larger D-cache ahead. -/
theorem Stepped.outgrown (w : Stepped s b t) (w' : Stepped s' b' t') (hmem : cfg.memorySize + 16 ≤ 2 ^ 32)
    (hsmall : cfg.Small) (hen : cfg.dcache.enabled = true) (hdvd : cfg.dcache.lines ∣ lines) (h : Outgrown s s')
    (hi : s.Inv) : Outgrown t t' := by
  have hsmall' : (cfg.withDataLines lines).Small := hsmall
  obtain ⟨i, j, htrail⟩ := h.trailing
  obtain ⟨hinsn, he⟩ := w.same w' h.arch
  have hpc : s.pc = s'.pc := congrArg Arch.pc h.arch
  have hp := w.placed hi hmem
  obtain ⟨q⟩ := w.charged
  obtain ⟨q'⟩ := w'.charged
  rw [← he, ← look_same h.arch, ← hpc] at q'
  have hmisses := w.tally.1
  have hmisses' := w'.tally.1
  rw [← he] at hmisses'
  have hle := h.tally_le hen w.e.kind
  have hfewer := h.misses
  refine ⟨?_, ?_, h.access hen hdvd w w', by omega, ?_⟩
  · rw [w.arch, w'.arch, hinsn, he, h.arch]
  · rw [w.pc]
    exact ⟨_, _, htrail.serve q q' hp w.fits.sequential (h.dstall_zero hen hsmall.data)⟩
  · have hreplays : t.dcacheIfstallReplays = s.dcacheIfstallReplays + q.replay := q.replays
    have hreplays' : t'.dcacheIfstallReplays = s'.dcacheIfstallReplays + q'.replay := q'.replays
    have hold := h.replays
    have hstep := h.replay_le hsmall hen q q' htrail hp
    omega

theorem outgrown_run (hmem : cfg.memorySize + 16 ≤ 2 ^ 32) (hsmall : cfg.Small) (hen : cfg.dcache.enabled = true)
    (hdvd : cfg.dcache.lines ∣ lines) (h : cfg.Accepted) (h' : (cfg.withDataLines lines).Accepted)
    {program data : ℕ → BitVec 8} {pc : BitVec 32} {n : ℕ}
    (ht : Exec.iter step n (boot cfg h program data pc) = some t)
    (ht' : Exec.iter step n (boot (cfg.withDataLines lines) h' program data pc) = some t') : Outgrown t t' := by
  refine (run_rel (R := fun s s' => s.Inv ∧ Outgrown s s') ?_ ?_ ht ht'
    ⟨inv_boot h program data pc, outgrown_boot h h' program data pc⟩).2
  · intro s s' hr
    exact congrArg Arch.halted hr.2.arch
  · intro s s' u u' b b' w w' hr
    obtain ⟨hi, hr⟩ := hr
    exact ⟨w.inv hi hmem, w.outgrown w' hmem hsmall hen hdvd hr hi⟩

end CpuModel

/-! ## The overlap of a run, item by item -/

namespace CpuConfig

variable (cfg : CpuConfig)

/-- the credit behind a clean victim -/
def cleanCredit : ℕ := min (cfg.dcache.memoryLatency.toNat + 3) (cfg.icache.memoryLatency.toNat + 4)

/-- the credit behind a dirty victim -/
def dirtyCredit : ℕ := min (2 * cfg.dcache.memoryLatency.toNat + 6) (cfg.icache.memoryLatency.toNat + 4)

/-- what a dirty victim adds to a credit -/
def dirtyMargin : ℕ := cfg.dirtyCredit - cfg.cleanCredit

theorem cleanCredit_le : cfg.cleanCredit ≤ cfg.dirtyCredit := by
  unfold cleanCredit dirtyCredit
  omega

end CpuConfig

namespace Caches

variable {cfg : CpuConfig} {c c' : Caches cfg} {k : Kind} {pc nextPc st : BitVec 32}
  {look : Except Exn (Option (BitVec 32))} {j : ℕ}

/-- the credit of one instruction: its replay, and d = 1 behind a dirty victim -/
theorem Charged.credit_itemized (w : Charged c k pc nextPc look st c') (hsmall : cfg.Small)
    (h : Lead c.frontEnd pc j) (hj : j ≤ 3) (hp : Placed pc) : ∃ d ≤ w.replay,
      d ≤ k.tally (fun a => (cfg.dcache.outcome c.dcache.contents a).writeback) ∧
        w.credit.toNat = cfg.cleanCredit * w.replay + cfg.dirtyMargin * d := by
  by_cases he : Earns c k pc look j
  · obtain ⟨a, rfl, hcredit⟩ := w.credit_of_victim hsmall h hj hp he
    have htally : (Kind.store a).tally (fun a => (cfg.dcache.outcome c.dcache.contents a).writeback) =
        if (cfg.dcache.outcome c.dcache.contents a).writeback then 1 else 0 := rfl
    have hle := cfg.cleanCredit_le
    rw [w.replay_earned hsmall h hj hp he, htally, hcredit]
    refine ⟨if (cfg.dcache.outcome c.dcache.contents a).writeback then 1 else 0, ?_, le_rfl, ?_⟩
    · split_ifs <;> omega
    · unfold CpuConfig.dirtyMargin
      split_ifs
      · unfold CpuConfig.cleanCredit CpuConfig.dirtyCredit at *
        omega
      · unfold CpuConfig.cleanCredit
        omega
  · obtain ⟨hnone, hreplay⟩ := w.replay_unearned hsmall h hj hp he
    rw [hnone, hreplay]
    exact ⟨0, le_rfl, Nat.zero_le _, rfl⟩

end Caches

namespace CpuModel

variable {cfg : CpuConfig} {lines : ℕ} {s t : CpuModel cfg} {b : Bool}

/-- the overlap is a clean credit for each replay, and the margin for d replays behind a dirty victim -/
def Itemized (s : CpuModel cfg) (d : ℕ) : Prop :=
  d ≤ s.dcacheIfstallReplays ∧ d ≤ s.dcache.stats.writebacks ∧
    s.cacheOverlapCycles = cfg.cleanCredit * s.dcacheIfstallReplays + cfg.dirtyMargin * d

theorem Stepped.itemized (w : Stepped s b t) (hmem : cfg.memorySize + 16 ≤ 2 ^ 32) (hsmall : cfg.Small) (hi : s.Inv)
    {d : ℕ} (h : s.Itemized d) : ∃ d, t.Itemized d := by
  obtain ⟨j, hj, hl⟩ := hi.lead
  obtain ⟨q⟩ := w.charged
  obtain ⟨e, hreplay, hdirty, hcredit⟩ := q.credit_itemized hsmall hl hj (w.placed hi hmem)
  obtain ⟨hreplays, hwritebacks, hoverlap⟩ := h
  have hadd : t.cacheOverlapCycles = s.cacheOverlapCycles + q.credit.toNat := q.overlap
  have hcount : t.dcacheIfstallReplays = s.dcacheIfstallReplays + q.replay := q.replays
  have hvictims := w.tally.2
  refine ⟨d + e, ?_, ?_, ?_⟩
  · omega
  · rw [hvictims]
    exact Nat.add_le_add hwritebacks hdirty
  · rw [hadd, hcount, hoverlap, hcredit]
    ring

theorem itemized_run (hmem : cfg.memorySize + 16 ≤ 2 ^ 32) (hsmall : cfg.Small) (h : cfg.Accepted)
    {program data : ℕ → BitVec 8} {pc : BitVec 32} {n : ℕ}
    (ht : Exec.iter step n (boot cfg h program data pc) = some t) : ∃ d, t.Itemized d := by
  have hboot : (boot cfg h program data pc).Itemized 0 := by
    refine ⟨Nat.zero_le _, Nat.zero_le _, ?_⟩
    simp [boot, reset, withImages]
  refine (run_inv (P := fun s => s.Inv ∧ ∃ d, s.Itemized d) ?_ ht ⟨inv_boot h program data pc, 0, hboot⟩).2
  intro s u b w hs
  obtain ⟨hi, d, hd⟩ := hs
  exact ⟨w.inv hi hmem, w.itemized hmem hsmall hi hd⟩

/-- a clean credit is less than a miss costs: a saved miss makes up for the replay that went with it -/
theorem Outgrown.account {s' : CpuModel (cfg.withDataLines lines)} (h : Outgrown s s') :
    s'.dcache.stats.misses * (cfg.dcache.memoryLatency.toNat + 4) + cfg.cleanCredit * s.dcacheIfstallReplays ≤
      s.dcache.stats.misses * (cfg.dcache.memoryLatency.toNat + 4) + cfg.cleanCredit * s'.dcacheIfstallReplays := by
  have hcredit : cfg.cleanCredit ≤ cfg.dcache.memoryLatency.toNat + 4 := by
    unfold CpuConfig.cleanCredit
    omega
  obtain ⟨saved, hsaved⟩ := Nat.exists_eq_add_of_le h.misses
  have hreplays : s.dcacheIfstallReplays ≤ s'.dcacheIfstallReplays + saved := by
    have hold := h.replays
    omega
  rw [hsaved, Nat.add_mul]
  have hgained : cfg.cleanCredit * s.dcacheIfstallReplays ≤
      saved * (cfg.dcache.memoryLatency.toNat + 4) + cfg.cleanCredit * s'.dcacheIfstallReplays := by
    calc cfg.cleanCredit * s.dcacheIfstallReplays
        ≤ cfg.cleanCredit * (s'.dcacheIfstallReplays + saved) := Nat.mul_le_mul_left _ hreplays
      _ = saved * cfg.cleanCredit + cfg.cleanCredit * s'.dcacheIfstallReplays := by ring
      _ ≤ saved * (cfg.dcache.memoryLatency.toNat + 4) + cfg.cleanCredit * s'.dcacheIfstallReplays :=
          Nat.add_le_add_right (Nat.mul_le_mul_left saved hcredit) _
  omega

/-- the larger D-cache stalls less, also by the clean credits that only the smaller one has -/
theorem Outgrown.stalls {s' : CpuModel (cfg.withDataLines lines)} (h : Outgrown s s')
    (hlat : 2 * cfg.dcache.memoryLatency.toNat + 7 < 2 ^ 32) (hb : s.Books) (hb' : s'.Books) :
    s'.dcache.stats.stallCycles ≤ s.dcache.stats.stallCycles ∧
      s'.dcache.stats.stallCycles + cfg.cleanCredit * s.dcacheIfstallReplays ≤
        s.dcache.stats.stallCycles + cfg.cleanCredit * s'.dcacheIfstallReplays := by
  have hstalls := hb.dcache.stall_eq hlat
  have hstalls' : s'.dcache.stats.stallCycles = s'.dcache.stats.misses * (cfg.dcache.memoryLatency.toNat + 4) +
      s'.dcache.stats.writebacks * (cfg.dcache.memoryLatency.toNat + 3) := hb'.dcache.stall_eq hlat
  have hmisses := Nat.mul_le_mul_right (cfg.dcache.memoryLatency.toNat + 4) h.misses
  have hwritebacks := Nat.mul_le_mul_right (cfg.dcache.memoryLatency.toNat + 3) h.paced.writebacks_le
  have haccount := h.account
  refine ⟨?_, ?_⟩
  · omega
  · omega

end CpuModel

/-- two stores, a jump and two loads, each of another word: with one line the second store and the first load evict a
dirty line, with two lines the two loads do -/
def conflictPair : List (BitVec 32) :=
  [0x00002023, 0x00002223, 0x0180006F, 0x13, 0x13, 0x13, 0x13, 0x13, 0x00802083, 0x00C02083, 0x73]

theorem splitCaches_withDataLines_accepted (lines : ℕ) (h : isPowerOfTwo lines = true) :
    (splitCaches.withDataLines lines).Accepted where
  icache := splitCaches_accepted.icache
  dcache := ⟨h, rfl⟩

end Rv32im
