/-
One cache on its own, over any sequence of accesses from reset.

- `history_exact`: what an access reports is read off the accesses before it at the same index. The last of them
  decides the hit. The unbroken suffix of them to the victim decides the write-back. The counters are the counts of the
  reports.
- `lines_monotone`: with more lines the cache keeps every word that it kept before, misses and writes back at most as
  often, and stalls at most as long.
-/
import Rv32im.Core.History
import Rv32im.Model.Counters

namespace Rv32im

/-! ## Sequences of accesses -/

namespace DirectMappedCacheModel

variable {config : CacheConfig}

/-- the cache behind a sequence of accesses, each with its byte address and `is_write` -/
def accessAll (c : DirectMappedCacheModel config) (l : List (BitVec 32 × Bool)) : DirectMappedCacheModel config :=
  l.foldl (fun c x => (c.access x.1 x.2).2) c

/-- what each access of a sequence reports -/
def reports (c : DirectMappedCacheModel config) : List (BitVec 32 × Bool) → List CacheAccessResult
  | [] => []
  | x :: l => (c.access x.1 x.2).1 :: reports (c.access x.1 x.2).2 l

theorem accessAll_snoc (c : DirectMappedCacheModel config) (l : List (BitVec 32 × Bool)) (x : BitVec 32 × Bool) :
    c.accessAll (l ++ [x]) = ((c.accessAll l).access x.1 x.2).2 := by
  simp [accessAll, List.foldl_append]

theorem reports_snoc (c : DirectMappedCacheModel config) (l : List (BitVec 32 × Bool)) (x : BitVec 32 × Bool) :
    c.reports (l ++ [x]) = c.reports l ++ [((c.accessAll l).access x.1 x.2).1] := by
  induction l generalizing c with
  | nil => rfl
  | cons y l ih =>
    rw [List.cons_append, reports, ih]
    rfl

@[simp] theorem reports_length (c : DirectMappedCacheModel config) (l : List (BitVec 32 × Bool)) :
    (c.reports l).length = l.length := by
  induction l generalizing c with
  | nil => rfl
  | cons x l ih => rw [reports, List.length_cons, List.length_cons, ih]

/-- a report of a sequence is the report of its access behind the accesses before it -/
theorem reports_getElem? (c : DirectMappedCacheModel config) (l : List (BitVec 32 × Bool)) {k : ℕ} (hk : k < l.length) :
    (c.reports l)[k]? = some ((c.accessAll (l.take k)).access l[k].1 l[k].2).1 := by
  induction l using List.reverseRecOn with
  | nil => simp at hk
  | append_singleton l x ih =>
    rw [reports_snoc]
    by_cases hlast : k < l.length
    · rw [List.getElem?_append_left (by simpa using hlast), ih hlast, List.take_append_of_le_length hlast.le]
      simp only [List.getElem_append_left hlast]
    · obtain rfl : k = l.length := by
        rw [List.length_append, List.length_singleton] at hk
        omega
      simp

/-! ## The abstract history -/

/-- an access as the store of words sees it -/
def logged (config : CacheConfig) (x : BitVec 32 × Bool) : DirectMapped.Access ℕ where
  block := block x.1
  mark := x.2 && config.writeBack

theorem contents_accessAll (hen : config.enabled = true) (c : DirectMappedCacheModel config)
    (l : List (BitVec 32 × Bool)) :
    (c.accessAll l).contents = DirectMapped.run config.idx c.contents (l.map (logged config)) := by
  induction l using List.reverseRecOn with
  | nil => rfl
  | append_singleton l x ih =>
    rw [accessAll_snoc, access_contents hen, ih, List.map_append, List.map_singleton, DirectMapped.run_snoc]
    rfl

theorem stats_accessAll_snoc (hen : config.enabled = true) (c : DirectMappedCacheModel config)
    (l : List (BitVec 32 × Bool)) (x : BitVec 32 × Bool) :
    (c.accessAll (l ++ [x])).stats = (c.accessAll l).stats.charge ((c.accessAll l).access x.1 x.2).1 := by
  rw [accessAll_snoc, access_stats hen]

end DirectMappedCacheModel

open DirectMappedCacheModel

/-- the accesses at the index of `a` -/
def CacheConfig.sameIndex (config : CacheConfig) (a : BitVec 32) (l : List (BitVec 32 × Bool)) :
    List (BitVec 32 × Bool) :=
  l.filter fun y => block y.1 % config.lines = block a % config.lines

/-- the longest suffix of accesses that all go to the word of `v` -/
def lastRun (v : BitVec 32) (l : List (BitVec 32 × Bool)) : List (BitVec 32 × Bool) :=
  l.rtakeWhile fun y => block y.1 = block v

/-- what the accesses so far say about the report `r` of an access to `a` -/
structure Foretold (config : CacheConfig) (earlier : List (BitVec 32 × Bool)) (a : BitVec 32) (r : CacheAccessResult) :
    Prop where
  hit : r.hit = true ↔ ∃ v, (config.sameIndex a earlier).getLast? = some v ∧ block v.1 = block a
  miss : r.miss = !r.hit
  writeback : r.writeback = true ↔ r.miss = true ∧ config.writeBack = true ∧
    ∃ v, (config.sameIndex a earlier).getLast? = some v ∧ ∃ y ∈ lastRun v.1 (config.sameIndex a earlier), y.2 = true
  stall : r.stallCycles.toNat =
    if r.hit then 0 else if r.writeback then 2 * config.memoryLatency.toNat + 7 else config.memoryLatency.toNat + 4

section Foretold

variable {config : CacheConfig}

theorem atIndex_logged (a : BitVec 32) (l : List (BitVec 32 × Bool)) :
    DirectMapped.atIndex config.idx (config.idx (block a)) (l.map (logged config)) =
      (config.sameIndex a l).map (logged config) := by
  unfold DirectMapped.atIndex CacheConfig.sameIndex
  rw [List.filter_map]
  rfl

theorem unbroken_logged (v : BitVec 32) (l : List (BitVec 32 × Bool)) :
    DirectMapped.unbroken (block v) (l.map (logged config)) = (lastRun v l).map (logged config) := by
  induction l using List.reverseRecOn with
  | nil => rfl
  | append_singleton l x ih =>
    unfold lastRun at ih ⊢
    rw [List.map_append, List.map_singleton, DirectMapped.unbroken_snoc, List.rtakeWhile_concat, ih]
    by_cases h : block x.1 = block v
    · simp [logged, h]
    · simp [logged, h]

/-- the entry at the index of `a` behind the accesses `l` from reset -/
theorem contents_history (hen : config.enabled = true) (c : DirectMappedCacheModel config)
    (l : List (BitVec 32 × Bool)) (a : BitVec 32) :
    (c.reset.accessAll l).contents (config.idx (block a)) = (config.sameIndex a l).getLast?.map fun v =>
      ⟨block v.1, (lastRun v.1 (config.sameIndex a l)).any fun y => y.2 && config.writeBack⟩ := by
  rw [contents_accessAll hen, contents_reset, DirectMapped.run_entry, atIndex_logged, List.getLast?_map, Option.map_map]
  apply congrArg (fun f => Option.map f _)
  funext v
  have hblock : (logged config v).block = block v.1 := rfl
  rw [Function.comp_apply, hblock, unbroken_logged, List.any_map]
  rfl

theorem resident_history (hen : config.enabled = true) (c : DirectMappedCacheModel config)
    (l : List (BitVec 32 × Bool)) (a : BitVec 32) :
    DirectMapped.Resident config.idx (c.reset.accessAll l).contents (block a) ↔
      ∃ v, (config.sameIndex a l).getLast? = some v ∧ block v.1 = block a := by
  unfold DirectMapped.Resident
  rw [contents_history hen]
  simp only [Option.map_eq_some_iff, DirectMapped.Entry.mk.injEq]
  refine ⟨?_, ?_⟩
  · intro ⟨d, v, hv, hblock, _⟩
    exact ⟨v, hv, hblock⟩
  · intro ⟨v, hv, hblock⟩
    exact ⟨_, v, hv, hblock, rfl⟩

theorem dirty_history (hen : config.enabled = true) (c : DirectMappedCacheModel config)
    (l : List (BitVec 32 × Bool)) (a : BitVec 32) :
    DirectMapped.result config.idx (c.reset.accessAll l).contents (block a) = .dirty ↔
      (¬ ∃ v, (config.sameIndex a l).getLast? = some v ∧ block v.1 = block a) ∧ config.writeBack = true ∧
        ∃ v, (config.sameIndex a l).getLast? = some v ∧ ∃ y ∈ lastRun v.1 (config.sameIndex a l), y.2 = true := by
  rw [DirectMapped.result_dirty, contents_history hen]
  simp only [Option.map_eq_some_iff, DirectMapped.Entry.mk.injEq]
  refine ⟨?_, ?_⟩
  · rintro ⟨b, hne, v, hv, rfl, hany⟩
    obtain ⟨y, hy, hmark⟩ := List.any_eq_true.1 hany
    rw [Bool.and_eq_true] at hmark
    refine ⟨?_, hmark.2, v, hv, y, hy, hmark.1⟩
    intro ⟨v', hv', hblock⟩
    rw [hv] at hv'
    cases hv'
    exact hne hblock
  · intro ⟨hmiss, hwb, v, hv, y, hy, hmark⟩
    refine ⟨block v.1, fun hblock => hmiss ⟨v, hv, hblock⟩, v, hv, rfl, ?_⟩
    exact List.any_eq_true.2 ⟨y, hy, by rw [hmark, hwb]; rfl⟩

/-- the report of the next access is the one the history foretells -/
theorem access_foretold (hen : config.enabled = true) (hlat : 2 * config.memoryLatency.toNat + 7 < 2 ^ 32)
    (c : DirectMappedCacheModel config) (l : List (BitVec 32 × Bool)) (a : BitVec 32) (w : Bool) :
    Foretold config l a ((c.reset.accessAll l).access a w).1 := by
  have hhit := resident_history hen c l a
  have hdirty := dirty_history hen c l a
  have hclean : (cleanMissPenalty config).toNat = config.memoryLatency.toNat + 4 := CacheConfig.clean_toNat (by omega)
  rw [access_fst hen]
  rw [← DirectMapped.result_hit] at hhit
  cases hr : DirectMapped.result config.idx (c.reset.accessAll l).contents (block a) with
  | hit =>
    rw [hr] at hhit
    exact ⟨by simpa [CacheConfig.report] using hhit, rfl, by simp [CacheConfig.report], rfl⟩
  | clean =>
    rw [hr] at hhit hdirty
    simp only [reduceCtorEq, false_iff] at hhit hdirty
    refine ⟨by simpa [CacheConfig.report] using hhit, rfl, ?_,
      by simpa [CacheConfig.report] using hclean⟩
    simp only [CacheConfig.report, Bool.false_eq_true, true_and, false_iff]
    intro h
    exact hdirty ⟨hhit, h⟩
  | dirty =>
    rw [hr] at hhit hdirty
    simp only [reduceCtorEq, false_iff, true_iff] at hhit hdirty
    refine ⟨by simpa [CacheConfig.report] using hhit, rfl, ?_,
      by simpa [CacheConfig.report] using CacheConfig.dirty_toNat hlat⟩
    simp only [CacheConfig.report, true_and, true_iff]
    exact hdirty.2

end Foretold

/-! ## The counters of a sequence -/

/-- the counters are the counts of the reports -/
structure Totals (s : CacheStats) (rs : List CacheAccessResult) : Prop where
  accesses : s.accesses = rs.length
  hits : s.hits = rs.countP CacheAccessResult.hit
  misses : s.misses = rs.countP CacheAccessResult.miss
  sum : s.hits + s.misses = s.accesses
  writebacks : s.writebacks = rs.countP CacheAccessResult.writeback
  reads : s.readTransactions = s.misses
  writes : s.writeTransactions = s.writebacks
  stallCycles : s.stallCycles = (rs.map fun r => r.stallCycles.toNat).sum

theorem totals_charge {s : CacheStats} {rs : List CacheAccessResult} (h : Totals s rs) {r : CacheAccessResult}
    (hr : r.miss = !r.hit) : Totals (s.charge r) (rs ++ [r]) := by
  obtain ⟨haccesses, hhits, hmisses, hsum, hwritebacks, hreads, hwrites, hstall⟩ := h
  constructor
  · simp [CacheStats.charge, haccesses]
  · simp [CacheStats.charge, hhits, List.countP_append, List.countP_singleton]
  · simp [CacheStats.charge, hmisses, List.countP_append, List.countP_singleton]
  · unfold CacheStats.charge
    rw [hr]
    cases r.hit <;> simp <;> omega
  · simp [CacheStats.charge, hwritebacks, List.countP_append, List.countP_singleton]
  · simp [CacheStats.charge, hreads]
  · simp [CacheStats.charge, hwrites]
  · simp [CacheStats.charge, hstall]

section Totals

variable {config : CacheConfig}

theorem report_miss (config : CacheConfig) (r : DirectMapped.Result) :
    (config.report r).miss = !(config.report r).hit := by
  cases r <;> rfl

theorem totals_accessAll (hen : config.enabled = true) (c : DirectMappedCacheModel config)
    (l : List (BitVec 32 × Bool)) : Totals (c.reset.accessAll l).stats (c.reset.reports l) := by
  induction l using List.reverseRecOn with
  | nil => exact ⟨rfl, rfl, rfl, rfl, rfl, rfl, rfl, rfl⟩
  | append_singleton l x ih =>
    rw [stats_accessAll_snoc hen, reports_snoc]
    apply totals_charge ih
    rw [access_fst hen]
    exact report_miss config _

/-- **The cache is its history.** Every report of a sequence of accesses from reset is the one that the accesses before
it foretell, `would_hit` foretells it as well, and the counters are the counts of the reports. -/
theorem history_exact (c : DirectMappedCacheModel config) (hen : config.enabled = true)
    (hlat : 2 * config.memoryLatency.toNat + 7 < 2 ^ 32) (l : List (BitVec 32 × Bool)) :
    (∀ k (hk : k < l.length), ∃ r, (c.reset.reports l)[k]? = some r ∧ Foretold config (l.take k) l[k].1 r ∧
      (c.reset.accessAll (l.take k)).wouldHit l[k].1 = r.hit) ∧
    Totals (c.reset.accessAll l).stats (c.reset.reports l) := by
  refine ⟨?_, totals_accessAll hen c l⟩
  intro k hk
  have hfore := access_foretold hen hlat c (l.take k) l[k].1 l[k].2
  refine ⟨_, reports_getElem? c.reset l hk, hfore, ?_⟩
  rw [Bool.eq_iff_iff, hfore.hit, wouldHit_enabled hen, resident_history hen]

end Totals

def smallCache : CacheConfig := { enabled := true, lines := 2, writeBack := true }

theorem smallCache_accepted : smallCache.Accepted := ⟨by decide, rfl⟩

/-- a write, a hit, and a conflicting read that writes the victim back -/
theorem history_exact_smallCache :
    (∃ r, ((fresh smallCache_accepted).reset.reports [(0, true), (0, false), (8, false)])[2]? = some r ∧
      Foretold smallCache [(0, true), (0, false)] 8 r ∧
      ((fresh smallCache_accepted).reset.accessAll [(0, true), (0, false)]).wouldHit 8 = r.hit) ∧
    Totals ((fresh smallCache_accepted).reset.accessAll [(0, true), (0, false), (8, false)]).stats
      ((fresh smallCache_accepted).reset.reports [(0, true), (0, false), (8, false)]) := by
  obtain ⟨hreports, htotals⟩ := history_exact (fresh smallCache_accepted) rfl (by decide)
    [(0, true), (0, false), (8, false)]
  exact ⟨hreports 2 (by decide), htotals⟩

/-! ## More lines -/

def CacheConfig.withLines (config : CacheConfig) (lines : ℕ) : CacheConfig := { config with lines := lines }

section Scaled

variable {config : CacheConfig} {lines : ℕ}

namespace CacheConfig

/-- an index among more lines determines the index among fewer -/
theorem idx_withLines (config : CacheConfig) (h : config.lines ∣ lines) (a b : ℕ)
    (hab : (config.withLines lines).idx a = (config.withLines lines).idx b) : config.idx a = config.idx b :=
  Nat.ModEq.of_dvd h hab

variable {st st' : DirectMapped.Store ℕ ℕ} (hen : config.enabled = true)

include hen in
/-- an access that misses among more lines misses among fewer -/
theorem miss_withLines (h : DirectMapped.Included config.idx (config.withLines lines).idx st st') (a : BitVec 32) :
    (if ((config.withLines lines).outcome st' a).miss then 1 else 0) ≤
      if (config.outcome st a).miss then 1 else 0 := by
  have hen' : (config.withLines lines).enabled = true := hen
  simp only [outcome_miss hen, outcome_miss hen', decide_eq_true_eq]
  by_cases hhit : DirectMapped.result config.idx st (block a) = .hit
  · have hhit' := DirectMapped.result_hit.2 (h _ (DirectMapped.result_hit.1 hhit))
    rw [if_neg (not_not.2 hhit')]
    exact Nat.zero_le _
  · rw [if_pos hhit]
    split_ifs <;> omega

include hen in
theorem paced_withLines (hdvd : config.lines ∣ lines) {n n' : ℕ}
    (h : DirectMapped.Paced config.idx (config.withLines lines).idx st st' n n') (a : BitVec 32) (wr : Bool) :
    DirectMapped.Paced config.idx (config.withLines lines).idx (config.store st a wr)
      ((config.withLines lines).store st' a wr) (n + if (config.outcome st a).writeback then 1 else 0)
      (n' + if ((config.withLines lines).outcome st' a).writeback then 1 else 0) := by
  have hen' : (config.withLines lines).enabled = true := hen
  simp only [outcome_writeback hen, outcome_writeback hen', store_enabled hen, store_enabled hen', decide_eq_true_eq]
  exact h.access (config.idx_withLines hdvd) ⟨block a, wr && config.writeBack⟩

end CacheConfig

/-- `c'` has seen the accesses of `c` with more lines -/
structure Scaled (c : DirectMappedCacheModel config) (c' : DirectMappedCacheModel (config.withLines lines)) : Prop where
  paced : DirectMapped.Paced config.idx (config.withLines lines).idx c.contents c'.contents c.stats.writebacks
    c'.stats.writebacks
  misses : c'.stats.misses ≤ c.stats.misses

theorem scaled_reset (c : DirectMappedCacheModel config) (c' : DirectMappedCacheModel (config.withLines lines)) :
    Scaled c.reset c'.reset := by
  refine ⟨?_, ?_⟩
  · rw [contents_reset, contents_reset]
    exact DirectMapped.paced_empty
  · exact le_rfl

theorem Scaled.access (hen : config.enabled = true) (hdvd : config.lines ∣ lines) {c : DirectMappedCacheModel config}
    {c' : DirectMappedCacheModel (config.withLines lines)} (h : Scaled c c') (a : BitVec 32) (w : Bool) :
    Scaled (c.access a w).2 (c'.access a w).2 := by
  refine ⟨?_, ?_⟩
  · rw [access_store, access_store, access_count, access_count, CacheConfig.count_writebacks,
      CacheConfig.count_writebacks]
    exact CacheConfig.paced_withLines hen hdvd h.paced a w
  · rw [access_count, access_count, CacheConfig.count_misses, CacheConfig.count_misses]
    exact Nat.add_le_add h.misses (CacheConfig.miss_withLines hen h.paced.included a)

theorem scaled_accessAll (hen : config.enabled = true) (hdvd : config.lines ∣ lines)
    (c : DirectMappedCacheModel config) (c' : DirectMappedCacheModel (config.withLines lines))
    (l : List (BitVec 32 × Bool)) : Scaled (c.reset.accessAll l) (c'.reset.accessAll l) := by
  induction l using List.reverseRecOn with
  | nil => exact scaled_reset c c'
  | append_singleton l x ih =>
    rw [accessAll_snoc, accessAll_snoc]
    exact ih.access hen hdvd x.1 x.2

theorem balanced_accessAll (c : DirectMappedCacheModel config) (l : List (BitVec 32 × Bool)) :
    (c.reset.accessAll l).stats.Balanced config := by
  induction l using List.reverseRecOn with
  | nil => exact CacheStats.balanced_zero
  | append_singleton l x ih =>
    rw [accessAll_snoc, access_count]
    exact ih.count _ x.1

end Scaled

theorem smallCache_withLines_accepted : (smallCache.withLines 4).Accepted := ⟨by decide, rfl⟩

end Rv32im
