/-
The direct-mapped cache model (`src/CacheModel.cpp`, `include/rv32im/CacheModel.hpp`) and its abstraction to a
`DirectMapped.Store` of word addresses.

A cache only exists for a configuration that `configure` accepts: the structure carries that fact, and its line array
has exactly `config.lines` lines, so every index is in range.

- `access_outcome`, `access_store`, `access_count`: an access to an enabled cache is one `DirectMapped.access` of the
  addressed word. Its result is the `DirectMapped.result` of the store before, and the counters move by that result.
- `wouldHit_enabled`: `would_hit` is residency.
- `contents_fresh`: a fresh or reset cache is the empty store.
-/
import Rv32im.Core.DirectMapped
import Rv32im.Model.Basic

namespace Rv32im

/-! ## Model -/

structure CacheConfig where
  enabled : Bool := false
  lines : ℕ := 64
  lineBytes : ℕ := 4
  memoryLatency : BitVec 32 := 3
  writeBack : Bool := false
deriving DecidableEq, Repr

structure CacheStats where
  accesses : ℕ := 0
  hits : ℕ := 0
  misses : ℕ := 0
  writebacks : ℕ := 0
  readTransactions : ℕ := 0
  writeTransactions : ℕ := 0
  stallCycles : ℕ := 0
deriving DecidableEq, Repr

structure CacheAccessResult where
  hit : Bool := false
  miss : Bool := false
  writeback : Bool := false
  stallCycles : BitVec 32 := 0
deriving DecidableEq, Repr

structure Line where
  valid : Bool := false
  dirty : Bool := false
  tag : ℕ := 0
deriving DecidableEq, Repr

def isPowerOfTwo (value : ℕ) : Bool := value ≠ 0 && value &&& (value - 1) = 0

theorem isPowerOfTwo_iff {value : ℕ} : isPowerOfTwo value = true ↔ value.isPowerOfTwo := by
  rw [← Nat.ne_zero_and_sub_one_eq_zero_iff_isPowerOfTwo]
  simp [isPowerOfTwo]

/-- a power of two divides every larger one -/
theorem isPowerOfTwo_dvd {value value' : ℕ} (h : isPowerOfTwo value = true) (h' : isPowerOfTwo value' = true)
    (hle : value ≤ value') : value ∣ value' := by
  obtain ⟨k, rfl⟩ := isPowerOfTwo_iff.1 h
  obtain ⟨k', rfl⟩ := isPowerOfTwo_iff.1 h'
  exact pow_dvd_pow 2 ((Nat.pow_le_pow_iff_right (by decide)).1 hle)

/-- what `configure` checks -/
structure CacheConfig.Accepted (config : CacheConfig) : Prop where
  lines : isPowerOfTwo config.lines = true
  lineBytes : config.lineBytes = 4

theorem CacheConfig.Accepted.pos {config : CacheConfig} (h : config.Accepted) : 0 < config.lines := by
  have := h.lines
  simp only [isPowerOfTwo, Bool.and_eq_true, decide_eq_true_eq] at this
  omega

structure DirectMappedCacheModel (config : CacheConfig) where
  stats : CacheStats := {}
  lines : Vector Line config.lines
  accepted : config.Accepted

namespace DirectMappedCacheModel

variable {config : CacheConfig}

/-- the cache `configure` leaves when it accepts -/
def fresh (h : config.Accepted) : DirectMappedCacheModel config :=
  { lines := Vector.replicate config.lines {}, accepted := h }

def configure (config : CacheConfig) : Except Exn (DirectMappedCacheModel config) :=
  if hl : isPowerOfTwo config.lines = true then
    if hb : config.lineBytes = 4 then .ok (fresh ⟨hl, hb⟩) else .error .lineBytes
  else .error .lineCount

def reset (c : DirectMappedCacheModel config) : DirectMappedCacheModel config :=
  { c with stats := {}, lines := Vector.replicate config.lines {} }

def wordAddr (_c : DirectMappedCacheModel config) (byteAddr : BitVec 32) : ℕ := byteAddr.toNat / config.lineBytes

def index (c : DirectMappedCacheModel config) (byteAddr : BitVec 32) : Fin config.lines :=
  ⟨c.wordAddr byteAddr % config.lines, Nat.mod_lt _ c.accepted.pos⟩

def tag (c : DirectMappedCacheModel config) (byteAddr : BitVec 32) : ℕ := c.wordAddr byteAddr / config.lines

/-- `lines_[index]` -/
def line (c : DirectMappedCacheModel config) (byteAddr : BitVec 32) : Line := c.lines[(c.index byteAddr).val]

def setLine (c : DirectMappedCacheModel config) (byteAddr : BitVec 32) (l : Line) : DirectMappedCacheModel config :=
  { c with lines := c.lines.set (c.index byteAddr).val l (c.index byteAddr).isLt }

def wouldHit (c : DirectMappedCacheModel config) (byteAddr : BitVec 32) : Bool :=
  if !config.enabled then true
  else
    let line := c.line byteAddr
    line.valid && line.tag == c.tag byteAddr

def cleanMissPenalty (config : CacheConfig) : BitVec 32 := config.memoryLatency + 4

def dirtyMissPenalty (config : CacheConfig) : BitVec 32 := (2 * config.memoryLatency) + 7

def access (c : DirectMappedCacheModel config) (byteAddr : BitVec 32) (isWrite : Bool) :
    CacheAccessResult × DirectMappedCacheModel config :=
  if !config.enabled then ({ hit := true }, c)
  else
    let stats := { c.stats with accesses := c.stats.accesses + 1 }
    let line := c.line byteAddr
    if line.valid && line.tag == c.tag byteAddr then
      let line := if isWrite && config.writeBack then { line with dirty := true } else line
      ({ hit := true }, { c.setLine byteAddr line with stats := { stats with hits := stats.hits + 1 } })
    else
      let stats := { stats with misses := stats.misses + 1 }
      let writeback := line.valid && line.dirty && config.writeBack
      let stats :=
        if writeback then
          { stats with writebacks := stats.writebacks + 1, writeTransactions := stats.writeTransactions + 1 }
        else stats
      let stallCycles := if writeback then dirtyMissPenalty config else cleanMissPenalty config
      let stats := { stats with
        readTransactions := stats.readTransactions + 1, stallCycles := stats.stallCycles + stallCycles.toNat }
      let line := { valid := true, tag := c.tag byteAddr, dirty := isWrite && config.writeBack }
      ({ miss := true, writeback := writeback, stallCycles := stallCycles },
        { c.setLine byteAddr line with stats := stats })

end DirectMappedCacheModel

/-! ## The abstract store of word addresses -/

/-- the index of a word address -/
def CacheConfig.idx (config : CacheConfig) (w : ℕ) : ℕ := w % config.lines

/-- the result that `access` reports for a hit, a clean miss and a dirty miss -/
def CacheConfig.report (config : CacheConfig) : DirectMapped.Result → CacheAccessResult
  | .hit => { hit := true }
  | .clean => { miss := true, stallCycles := DirectMappedCacheModel.cleanMissPenalty config }
  | .dirty =>
    { miss := true, writeback := true, stallCycles := DirectMappedCacheModel.dirtyMissPenalty config }

/-- the counters after one more access with result `a` -/
def CacheStats.charge (s : CacheStats) (a : CacheAccessResult) : CacheStats where
  accesses := s.accesses + 1
  hits := s.hits + if a.hit then 1 else 0
  misses := s.misses + if a.miss then 1 else 0
  writebacks := s.writebacks + if a.writeback then 1 else 0
  readTransactions := s.readTransactions + if a.miss then 1 else 0
  writeTransactions := s.writeTransactions + if a.writeback then 1 else 0
  stallCycles := s.stallCycles + a.stallCycles.toNat

/-! A disabled cache always hits, holds nothing and counts nothing. -/

/-- what an access reports when the cache holds `st` -/
def CacheConfig.outcome (config : CacheConfig) (st : DirectMapped.Store ℕ ℕ) (a : BitVec 32) : CacheAccessResult :=
  if config.enabled then config.report (DirectMapped.result config.idx st (block a)) else { hit := true }

/-- what the cache holds after the access -/
def CacheConfig.store (config : CacheConfig) (st : DirectMapped.Store ℕ ℕ) (a : BitVec 32) (w : Bool) :
    DirectMapped.Store ℕ ℕ :=
  if config.enabled then DirectMapped.access config.idx st (block a) (w && config.writeBack) else st

/-- the counters after an access that reported `a` -/
def CacheConfig.count (config : CacheConfig) (s : CacheStats) (a : CacheAccessResult) : CacheStats :=
  if config.enabled then s.charge a else s

namespace DirectMappedCacheModel

variable {config : CacheConfig}

/-- the words in the cache, each at its index; a dirty bit counts only in a write-back cache -/
def contents (c : DirectMappedCacheModel config) : DirectMapped.Store ℕ ℕ := fun i =>
  if h : i < config.lines then
    let l := c.lines[i]
    if l.valid then some ⟨l.tag * config.lines + i, l.dirty && config.writeBack⟩ else none
  else none

theorem wordAddr_eq (c : DirectMappedCacheModel config) (a : BitVec 32) : c.wordAddr a = block a := by
  simp [wordAddr, block, c.accepted.lineBytes]

theorem index_val (c : DirectMappedCacheModel config) (a : BitVec 32) : (c.index a).val = config.idx (block a) := by
  simp [index, wordAddr_eq, CacheConfig.idx]

theorem contents_fresh (h : config.Accepted) : (fresh h).contents = DirectMapped.empty := by
  funext i
  simp [contents, fresh, DirectMapped.empty]

theorem contents_reset (c : DirectMappedCacheModel config) : c.reset.contents = DirectMapped.empty := by
  funext i
  simp [contents, reset, DirectMapped.empty]

/-- the entry at the index of an address, read off its line -/
theorem contents_index (c : DirectMappedCacheModel config) (a : BitVec 32) :
    c.contents (config.idx (block a)) = if (c.line a).valid then
      some ⟨(c.line a).tag * config.lines + config.idx (block a), (c.line a).dirty && config.writeBack⟩ else none := by
  have hlt : config.idx (block a) < config.lines := Nat.mod_lt _ c.accepted.pos
  simp only [contents, line, hlt, dif_pos, index_val]

theorem contents_setLine (c : DirectMappedCacheModel config) (a : BitVec 32) (l : Line) :
    (c.setLine a l).contents = Function.update c.contents (config.idx (block a))
      (if l.valid then some ⟨l.tag * config.lines + config.idx (block a), l.dirty && config.writeBack⟩ else none) := by
  have hlt : config.idx (block a) < config.lines := Nat.mod_lt _ c.accepted.pos
  funext i
  by_cases hi : i = config.idx (block a)
  · subst hi
    rw [Function.update_self]
    simp only [contents, setLine, hlt, dif_pos, index_val, Vector.getElem_set_self]
  · rw [Function.update_of_ne hi]
    unfold contents
    split_ifs with h
    · have hne : (c.index a).val ≠ i := by rw [index_val]; exact fun e => hi e.symm
      simp only [setLine, Vector.getElem_set_ne _ _ hne]
    · rfl

/-- a word address from its tag and index -/
theorem tag_index (c : DirectMappedCacheModel config) (a : BitVec 32) :
    c.tag a * config.lines + config.idx (block a) = block a := by
  rw [tag, wordAddr_eq, CacheConfig.idx, Nat.mul_comm]
  exact Nat.div_add_mod _ _

theorem tag_match (c : DirectMappedCacheModel config) (a : BitVec 32) (t : ℕ) :
    t * config.lines + config.idx (block a) = block a ↔ t = c.tag a := by
  refine ⟨?_, ?_⟩
  · intro h
    have := c.tag_index a
    exact Nat.eq_of_mul_eq_mul_right c.accepted.pos (by omega)
  · rintro rfl; exact c.tag_index a

/-! ## An access refines an access of the store -/

theorem access_disabled (h : config.enabled = false) (c : DirectMappedCacheModel config) (a : BitVec 32) (w : Bool) :
    c.access a w = ({ hit := true }, c) := by
  simp [access, h]

/-- the line test of `access` and `would_hit` is residency -/
theorem lineHit_iff (c : DirectMappedCacheModel config) (a : BitVec 32) :
    ((c.line a).valid && (c.line a).tag == c.tag a) = true ↔
      DirectMapped.Resident config.idx c.contents (block a) := by
  unfold DirectMapped.Resident
  rw [contents_index]
  cases hv : (c.line a).valid with
  | false => simp
  | true =>
    simp only [Bool.true_and, beq_iff_eq, if_true, Option.some.injEq, DirectMapped.Entry.mk.injEq, c.tag_match a]
    simp

theorem result_eq (c : DirectMappedCacheModel config) (a : BitVec 32) :
    DirectMapped.result config.idx c.contents (block a) =
      if (c.line a).valid && (c.line a).tag == c.tag a then .hit
      else if (c.line a).valid && (c.line a).dirty && config.writeBack then .dirty else .clean := by
  unfold DirectMapped.result
  rw [contents_index]
  cases hv : (c.line a).valid with
  | false => simp
  | true =>
    simp only [if_true, c.tag_match a, Bool.true_and, beq_iff_eq]

theorem access_fst (h : config.enabled = true) (c : DirectMappedCacheModel config) (a : BitVec 32) (w : Bool) :
    (c.access a w).1 = config.report (DirectMapped.result config.idx c.contents (block a)) := by
  rw [result_eq]
  simp only [access, h, Bool.not_true, Bool.false_eq_true, if_false]
  by_cases hhit : ((c.line a).valid && (c.line a).tag == c.tag a) = true
  · rw [if_pos hhit, if_pos hhit]; rfl
  · rw [if_neg hhit, if_neg hhit]
    cases hwb : (c.line a).valid && (c.line a).dirty && config.writeBack <;> rfl

theorem access_stats (h : config.enabled = true) (c : DirectMappedCacheModel config) (a : BitVec 32) (w : Bool) :
    (c.access a w).2.stats = c.stats.charge (c.access a w).1 := by
  simp only [access, h, Bool.not_true, Bool.false_eq_true, if_false]
  by_cases hhit : ((c.line a).valid && (c.line a).tag == c.tag a) = true
  · rw [if_pos hhit]; rfl
  · rw [if_neg hhit]
    cases hwb : (c.line a).valid && (c.line a).dirty && config.writeBack <;> rfl

theorem access_contents (h : config.enabled = true) (c : DirectMappedCacheModel config) (a : BitVec 32) (w : Bool) :
    (c.access a w).2.contents =
      DirectMapped.access config.idx c.contents (block a) (w && config.writeBack) := by
  have hset : ∀ (st : CacheStats) (l : Line),
      ({ c.setLine a l with stats := st } : DirectMappedCacheModel config).contents = (c.setLine a l).contents :=
    fun _ _ => rfl
  unfold DirectMapped.access
  by_cases hhit : ((c.line a).valid && (c.line a).tag == c.tag a) = true
  · have hentry : c.contents (config.idx (block a)) = some ⟨block a, (c.line a).dirty && config.writeBack⟩ := by
      rw [contents_index]
      simp only [Bool.and_eq_true, beq_iff_eq] at hhit
      rw [if_pos hhit.1, hhit.2, c.tag_index a]
    rw [DirectMapped.isDirty_of_entry hentry]
    simp only [access, h, hhit, Bool.not_true, Bool.false_eq_true, if_false, if_true]
    rw [hset, contents_setLine]
    simp only [Bool.and_eq_true, beq_iff_eq] at hhit
    congr 1
    cases w <;> cases hw : config.writeBack <;> simp [hhit.1, hhit.2, c.tag_index a]
  · have hres : DirectMapped.result config.idx c.contents (block a) ≠ .hit := by
      rw [ne_eq, DirectMapped.result_hit, ← lineHit_iff]; exact hhit
    rw [DirectMapped.isDirty_of_not_hit hres]
    simp only [access, h, hhit, Bool.not_true, Bool.false_eq_true, if_false]
    rw [hset, contents_setLine]
    congr 1
    cases w <;> cases hw : config.writeBack <;> simp [c.tag_index a]

theorem access_outcome (c : DirectMappedCacheModel config) (a : BitVec 32) (w : Bool) :
    (c.access a w).1 = config.outcome c.contents a := by
  unfold CacheConfig.outcome
  split_ifs with h
  · exact access_fst h c a w
  · rw [access_disabled (by simpa using h)]

theorem access_store (c : DirectMappedCacheModel config) (a : BitVec 32) (w : Bool) :
    (c.access a w).2.contents = config.store c.contents a w := by
  unfold CacheConfig.store
  split_ifs with h
  · exact access_contents h c a w
  · rw [access_disabled (by simpa using h)]

theorem access_count (c : DirectMappedCacheModel config) (a : BitVec 32) (w : Bool) :
    (c.access a w).2.stats = config.count c.stats (config.outcome c.contents a) := by
  unfold CacheConfig.count
  split_ifs with h
  · rw [access_stats h, access_outcome]
  · rw [access_disabled (by simpa using h)]

theorem wouldHit_enabled (h : config.enabled = true) (c : DirectMappedCacheModel config) (a : BitVec 32) :
    c.wouldHit a = true ↔ DirectMapped.Resident config.idx c.contents (block a) := by
  rw [← lineHit_iff]
  simp [wouldHit, h]

end DirectMappedCacheModel

end Rv32im
