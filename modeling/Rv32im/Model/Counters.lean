/-
The counters of one cache.

- `CacheConfig.clean_toNat`, `dirty_toNat`: the stall of a miss, when its 32-bit sum does not wrap.
- `CacheConfig.outcome_stall`, `count_misses`, `count_writebacks`: what one access stalls for and counts.
- `CacheStats.Balanced`: hits, misses, transactions and stalls agree with each other. Accesses and reads keep it.
- `Balanced.stall_eq`: the stalls follow from the misses and the write-backs.
-/
import Rv32im.Model.Cache

namespace Rv32im

theorem toNat_add_of_lt {a b : BitVec 32} (h : a.toNat + b.toNat < 2 ^ 32) : (a + b).toNat = a.toNat + b.toNat := by
  rw [BitVec.toNat_add, Nat.mod_eq_of_lt h]

/-- the counters after n reads of which m miss on a clean victim -/
def CacheStats.addReads (s : CacheStats) (n m penalty : ℕ) : CacheStats :=
  { s with
    accesses := s.accesses + n, hits := s.hits + (n - m), misses := s.misses + m
    readTransactions := s.readTransactions + m, stallCycles := s.stallCycles + m * penalty }

/-- reads in a row add up -/
theorem CacheStats.addReads_addReads (s : CacheStats) {n n' m m' : ℕ} (hm : m ≤ n) (hm' : m' ≤ n') (penalty : ℕ) :
    (s.addReads n m penalty).addReads n' m' penalty = s.addReads (n + n') (m + m') penalty := by
  simp only [addReads, Nat.add_mul, CacheStats.mk.injEq]
  refine ⟨?_, ?_, ?_, trivial, ?_, trivial, ?_⟩ <;> omega

/-- the stall of one I-cache miss -/
def CacheConfig.penalty (icfg : CacheConfig) : ℕ := (DirectMappedCacheModel.cleanMissPenalty icfg).toNat

namespace CacheConfig

variable {config : CacheConfig}

/-! ## One access -/

theorem clean_toNat (h : config.memoryLatency.toNat + 4 < 2 ^ 32) :
    (DirectMappedCacheModel.cleanMissPenalty config).toNat = config.memoryLatency.toNat + 4 :=
  toNat_add_of_lt (by simpa using h)

theorem dirty_toNat (h : 2 * config.memoryLatency.toNat + 7 < 2 ^ 32) :
    (DirectMappedCacheModel.dirtyMissPenalty config).toNat = 2 * config.memoryLatency.toNat + 7 := by
  have htwice : (2 * config.memoryLatency).toNat = 2 * config.memoryLatency.toNat := by
    rw [BitVec.toNat_mul]
    exact Nat.mod_eq_of_lt (by simp; omega)
  unfold DirectMappedCacheModel.dirtyMissPenalty
  rw [toNat_add_of_lt (by rw [htwice]; simpa using h), htwice]
  rfl

/-- the stall of one access, by its result -/
theorem outcome_stall (h : 2 * config.memoryLatency.toNat + 7 < 2 ^ 32) (st : DirectMapped.Store ℕ ℕ) (a : BitVec 32) :
    (config.outcome st a).stallCycles.toNat =
      (if (config.outcome st a).miss then config.memoryLatency.toNat + 4 else 0) +
        (if (config.outcome st a).writeback then config.memoryLatency.toNat + 3 else 0) := by
  have hclean : (DirectMappedCacheModel.cleanMissPenalty config).toNat = config.memoryLatency.toNat + 4 :=
    clean_toNat (by omega)
  have hdirty := dirty_toNat h
  unfold outcome
  cases config.enabled with
  | false => simp
  | true =>
    rw [if_pos rfl]
    cases DirectMapped.result config.idx st (block a) with
    | hit => simp [report]
    | clean => simp [report, hclean]
    | dirty =>
      simp only [report, if_true, hdirty]
      omega

/-- an access stalls exactly when it misses -/
theorem outcome_stall_zero (h : 2 * config.memoryLatency.toNat + 7 < 2 ^ 32) (st : DirectMapped.Store ℕ ℕ)
    (a : BitVec 32) :
    (config.outcome st a).stallCycles = 0 ↔ (config.outcome st a).miss = false := by
  have hstall := outcome_stall h st a
  have hwriteback : (config.outcome st a).writeback = true → (config.outcome st a).miss = true := by
    unfold outcome
    cases config.enabled with
    | false => simp
    | true => cases DirectMapped.result config.idx st (block a) <;> simp [report]
  rw [← BitVec.toNat_inj, hstall]
  cases hm : (config.outcome st a).miss with
  | true => simp
  | false =>
    have hno : (config.outcome st a).writeback = false := by
      by_contra hw
      rw [hwriteback (by simpa using hw)] at hm
      cases hm
    simp [hno]

theorem outcome_miss (hen : config.enabled = true) (st : DirectMapped.Store ℕ ℕ) (a : BitVec 32) :
    (config.outcome st a).miss = decide (DirectMapped.result config.idx st (block a) ≠ .hit) := by
  unfold outcome
  rw [if_pos hen]
  cases DirectMapped.result config.idx st (block a) <;> rfl

theorem outcome_writeback (hen : config.enabled = true) (st : DirectMapped.Store ℕ ℕ) (a : BitVec 32) :
    (config.outcome st a).writeback = decide (DirectMapped.result config.idx st (block a) = .dirty) := by
  unfold outcome
  rw [if_pos hen]
  cases DirectMapped.result config.idx st (block a) <;> rfl

theorem store_enabled (hen : config.enabled = true) (st : DirectMapped.Store ℕ ℕ) (a : BitVec 32) (wr : Bool) :
    config.store st a wr = DirectMapped.access config.idx st (block a) (wr && config.writeBack) := if_pos hen

theorem count_misses (s : CacheStats) (st : DirectMapped.Store ℕ ℕ) (a : BitVec 32) :
    (config.count s (config.outcome st a)).misses = s.misses + if (config.outcome st a).miss then 1 else 0 := by
  unfold count outcome
  cases config.enabled <;> rfl

theorem count_writebacks (s : CacheStats) (st : DirectMapped.Store ℕ ℕ) (a : BitVec 32) :
    (config.count s (config.outcome st a)).writebacks =
      s.writebacks + if (config.outcome st a).writeback then 1 else 0 := by
  unfold count outcome
  cases config.enabled <;> rfl

/-- write-backs are paid for by stores -/
theorem budget_store (config : CacheConfig) {st : DirectMapped.Store ℕ ℕ} {n m : ℕ}
    (h : DirectMapped.Budget st n m) (a : BitVec 32) (wr : Bool) :
    DirectMapped.Budget (config.store st a wr) (n + if (config.outcome st a).writeback then 1 else 0)
      (m + if wr then 1 else 0) := by
  by_cases hen : config.enabled = true
  · rw [store_enabled hen, outcome_writeback hen]
    simp only [decide_eq_true_eq]
    refine (DirectMapped.budget_access h (block a) (wr && config.writeBack)).mono ?_
    cases wr <;> cases config.writeBack <;> simp
  · rw [store, outcome, if_neg hen, if_neg hen]
    exact h.mono (Nat.le_add_right m _)

end CacheConfig

/-! ## All accesses -/

/-- the counters of one cache agree with each other -/
structure CacheStats.Balanced (config : CacheConfig) (s : CacheStats) : Prop where
  hits : s.hits + s.misses = s.accesses
  reads : s.readTransactions = s.misses
  writes : s.writeTransactions = s.writebacks
  dirty : s.writebacks ≤ s.misses
  stalls : s.stallCycles + s.writebacks * config.penalty =
    s.misses * config.penalty + s.writebacks * (DirectMappedCacheModel.dirtyMissPenalty config).toNat

namespace CacheStats

variable {config : CacheConfig} {s : CacheStats}

theorem balanced_zero : Balanced config {} := by
  constructor <;> simp

/-- reads without write-backs -/
theorem Balanced.addReads (h : s.Balanced config) {n m : ℕ} (hm : m ≤ n) :
    (s.addReads n m config.penalty).Balanced config := by
  obtain ⟨hhits, hreads, hwrites, hdirty, hstalls⟩ := h
  constructor
  · simp only [CacheStats.addReads]; omega
  · simp only [CacheStats.addReads, hreads]
  · exact hwrites
  · simp only [CacheStats.addReads]; omega
  · simp only [CacheStats.addReads, Nat.add_mul]; omega

/-- hits only -/
theorem Balanced.addHits (h : s.Balanced config) (n : ℕ) : (s.addReads n 0 0).Balanced config := by
  have hzero : s.addReads n 0 0 = s.addReads n 0 config.penalty := by simp [CacheStats.addReads]
  rw [hzero]
  exact h.addReads (Nat.zero_le n)

/-- one access of a load or a store -/
theorem Balanced.count (h : s.Balanced config) (st : DirectMapped.Store ℕ ℕ) (a : BitVec 32) :
    (config.count s (config.outcome st a)).Balanced config := by
  unfold CacheConfig.count CacheConfig.outcome
  split_ifs with hen
  · obtain ⟨hhits, hreads, hwrites, hdirty, hstalls⟩ := h
    unfold CacheConfig.penalty at hstalls
    cases DirectMapped.result config.idx st (block a) <;> constructor <;>
      simp only [charge, CacheConfig.report, CacheConfig.penalty, if_true, Bool.false_eq_true, if_false, Nat.add_mul,
        Nat.one_mul, Nat.add_zero, BitVec.toNat_zero, BitVec.ofNat_eq_ofNat] <;> omega
  · exact h

/-- a dirty miss is a clean miss and a write-back of L + 3 cycles -/
theorem Balanced.stall_eq (h : s.Balanced config) (hlat : 2 * config.memoryLatency.toNat + 7 < 2 ^ 32) :
    s.stallCycles = s.misses * (config.memoryLatency.toNat + 4) + s.writebacks * (config.memoryLatency.toNat + 3) := by
  have hclean : config.penalty = config.memoryLatency.toNat + 4 := CacheConfig.clean_toNat (by omega)
  have hstalls := h.stalls
  rw [hclean, CacheConfig.dirty_toNat hlat] at hstalls
  have hsplit : s.writebacks * (2 * config.memoryLatency.toNat + 7) =
      s.writebacks * (config.memoryLatency.toNat + 4) + s.writebacks * (config.memoryLatency.toNat + 3) := by ring
  omega

end CacheStats

end Rv32im
