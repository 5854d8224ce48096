/-
The canonical fetch stream of a run.

The retired PCs of a run are cut into segments that end at a taken branch, a jump or the final SYSTEM instruction.
The first-time requests of the run are the words t, t+4, ..., q+8 of each segment from t to q, in order: run-ahead
behind a D-cache stall is absorbed by the wrong path or the drain at the end of its segment.

- `Streamed`: the first-time requests so far are the closed segments and one sweep from the start of the open one.
- `Fetches`: the I-cache accesses so far, from the retired counts, the lead and the D-cache stalls.
- `canonical_stream`: the stream and the number of I-cache accesses of a run that halts.
-/
import Rv32im.Results.Accounting

namespace Rv32im

/-! ## Segments -/

/-- the first and last PC of each closed segment, and the first PC of the open one -/
structure Segments where
  closed : List (BitVec 32 × BitVec 32) := []
  opened : Option (BitVec 32) := none

/-- one more retired PC; the flag says that it ends its segment -/
def Segments.add (x : Segments) (r : BitVec 32 × Bool) : Segments :=
  let first := x.opened.getD r.1
  if r.2 then ⟨x.closed ++ [(first, r.1)], none⟩ else ⟨x.closed, some first⟩

def segments (l : List (BitVec 32 × Bool)) : Segments := l.foldl Segments.add {}

theorem segments_snoc (l : List (BitVec 32 × Bool)) (r : BitVec 32 × Bool) :
    segments (l ++ [r]) = (segments l).add r := by
  simp [segments]

/-- the words t, t + 4, ..., q + 8 -/
def segmentWords (t q : BitVec 32) : List (BitVec 32) :=
  (List.range ((q.toNat + 8 - t.toNat) / 4 + 1)).map fun i => t + BitVec.ofNat 32 (4 * i)

/-- the words of all closed segments, in order -/
def Segments.words (x : Segments) : List (BitVec 32) := x.closed.flatMap fun s => segmentWords s.1 s.2

theorem sweep_pcs (next : BitVec 32) (n : ℕ) :
    (sweep next n).map Request.pc = (List.range n).map fun i => next + BitVec.ofNat 32 (4 * i) := by
  induction n with
  | zero => rfl
  | succ n ih =>
    rw [sweep_append next n 1, List.map_append, ih, List.range_succ, List.map_append]
    rfl

namespace CpuModel

open FrontEnd Caches

variable {cfg : CpuConfig}

/-! ## The retired PCs of a run -/

/-- the step from `s` to `t` retired a taken branch, a jump or the final SYSTEM instruction -/
def endsSegment (s t : CpuModel cfg) : Bool :=
  s.stats.branchesTaken < t.stats.branchesTaken || s.stats.jumps < t.stats.jumps || t.halted

/-- the PC that the step from `s` to `t` retired -/
def retiredPc (s t : CpuModel cfg) : List (BitVec 32 × Bool) :=
  if s.halted then [] else [(s.pc, endsSegment s t)]

/-- the PCs that n steps retire, oldest first -/
def retiredPcs (n : ℕ) (s : CpuModel cfg) : List (BitVec 32 × Bool) := Exec.log step retiredPc n s

theorem Stepped.jumps {s t : CpuModel cfg} {b : Bool} (w : Stepped s b t) :
    t.stats.branchesTaken + t.stats.jumps =
      s.stats.branchesTaken + s.stats.jumps + if w.e.kind.jumps then 1 else 0 := by
  obtain ⟨-, -, hbranch, hjump⟩ := w.count
  rw [hbranch, hjump]
  cases w.e.kind with
  | branch taken => cases taken <;> simp [Kind.count, Kind.jumps]; omega
  | jump => simp [Kind.count, Kind.jumps]; omega
  | _ => simp [Kind.count, Kind.jumps]

theorem Stepped.ends {s t : CpuModel cfg} {b : Bool} (w : Stepped s b t) :
    endsSegment s t = w.e.kind.redirects := by
  obtain ⟨-, -, hbranch, hjump⟩ := w.count
  unfold endsSegment
  rw [hbranch, hjump, w.halted]
  cases w.e.kind with
  | branch taken => cases taken <;> simp [Kind.count, Kind.redirects, Kind.jumps]
  | _ => simp [Kind.count, Kind.redirects, Kind.jumps]

/-! ## The first-time requests of a run -/

/-- the first-time requests so far: the closed segments, and one sweep from the start of the open one -/
structure Streamed (s : CpuModel cfg) (x : Segments) : Prop where
  live : s.halted = false → ∃ i j, j ≤ 3 ∧ j ≤ i ∧ Lead s.caches.frontEnd s.pc j ∧
    (x.opened.getD s.pc).toNat + 4 * i = s.pc.toNat + 4 * j ∧
    (firstTime s.ifetch.requests).map Request.pc = x.words ++ (sweep (x.opened.getD s.pc) i).map Request.pc
  done : s.halted = true → x.opened = none ∧ (firstTime s.ifetch.requests).map Request.pc = x.words

theorem streamed_boot (h : cfg.Accepted) (program data : ℕ → BitVec 8) (pc : BitVec 32) :
    Streamed (boot cfg h program data pc) {} := by
  refine ⟨?_, ?_⟩
  · intro hlive
    exact ⟨0, 0, by omega, le_rfl, lead_boot h program data pc, rfl, rfl⟩
  · intro hh
    cases hh

/-- a redirect, or a drain, ends the sweep at the word two behind its pc -/
theorem span_redirects {k : Kind} (hr : k.redirects = true) {j : ℕ} (hj : j ≤ 3) {d : BitVec 32}
    (hd : d ≠ 0 → k.redirects = false) : k.span j d + j = 3 := by
  have hzero : d = 0 := by
    by_contra hne
    rw [hd hne] at hr
    cases hr
  unfold Kind.span
  rw [if_pos hzero, if_pos hr]
  omega

/-- the pointer stands behind the sweep of the open segment -/
theorem pointer_behind {f : FrontEnd {} cfg.icache} {pc first : BitVec 32} {i j : ℕ} (hl : Lead f pc j)
    (hen : cfg.icache.enabled = true) (hfirst : first.toNat + 4 * i = pc.toNat + 4 * j) :
    f.ifetch.nextSequentialPc = first + BitVec.ofNat 32 (4 * i) := by
  have hn : f.ifetch.nextSequentialPc.toNat = pc.toNat + 4 * j := hl.next hen
  have hlt : (BitVec.ofNat 32 (4 * i)).toNat = 4 * i := by
    rw [BitVec.toNat_ofNat]
    omega
  refine BitVec.eq_of_toNat_eq ?_
  calc f.ifetch.nextSequentialPc.toNat
      = first.toNat + 4 * i := by rw [hn, hfirst]
    _ = (first + BitVec.ofNat 32 (4 * i)).toNat := by rw [toNat_add_of_lt (by rw [hlt]; omega), hlt]

/-- **One instruction** sweeps on in the open segment, or closes it. -/
theorem Stepped.streamed {s t : CpuModel cfg} {b : Bool} (w : Stepped s b t) {x : Segments} (h : Streamed s x)
    (hi : s.Inv) (hmem : cfg.memorySize + 16 ≤ 2 ^ 32) (hen : cfg.icache.enabled = true) :
    Streamed t (x.add (s.pc, w.e.kind.redirects)) := by
  obtain ⟨i, j, hj, hji, hl, hfirst, hreqs⟩ := h.live w.running.live
  obtain ⟨q⟩ := w.charged
  obtain ⟨hs, hl'⟩ := w.served hi hmem hj hl q
  have hplaced := (w.placed hi hmem).below
  have hspan := w.e.kind.span_lead hj (redirects_of_dstall s.caches w.e.kind)
  set d := s.caches.dstall w.e.kind
  set first := x.opened.getD s.pc with hfirst_def
  -- the sweep of the instruction continues the sweep of the segment
  have hnext : s.ifetch.nextSequentialPc = first + BitVec.ofNat 32 (4 * i) := pointer_behind hl hen hfirst
  have hlog : (firstTime t.ifetch.requests).map Request.pc =
      x.words ++ (sweep first (i + w.e.kind.span j d)).map Request.pc := by
    have := hs.log
    rw [CacheConfig.fetches, if_pos hen, hnext] at this
    rw [show firstTime t.ifetch.requests = _ from this, List.map_append,
      show firstTime s.caches.frontEnd.ifetch.requests = firstTime s.ifetch.requests from rfl, hreqs, sweep_append,
      List.map_append, List.append_assoc]
  cases hr : w.e.kind.redirects with
  | true =>
    -- the segment closes: the sweep has reached the word two behind its last pc
    have hsum : w.e.kind.span j d + j = 3 := span_redirects hr hj (redirects_of_dstall s.caches w.e.kind)
    have hcount : (s.pc.toNat + 8 - first.toNat) / 4 + 1 = i + w.e.kind.span j d := by omega
    have hwords : (x.add (s.pc, true)).words = x.words ++ segmentWords first s.pc := by
      simp [Segments.add, Segments.words, hfirst_def]
    have hclosed : (firstTime t.ifetch.requests).map Request.pc = (x.add (s.pc, true)).words := by
      rw [hlog, hwords, segmentWords, hcount, sweep_pcs]
    refine ⟨fun hlive => ⟨0, 0, by omega, by omega, ?_, ?_, ?_⟩, fun _ => ⟨rfl, hclosed⟩⟩
    · have hjumps : w.e.kind.jumps = true := by
        rw [w.halted, decide_eq_false_iff_not] at hlive
        simpa [Kind.redirects, hlive] using hr
      rwa [Kind.leadAfter, if_pos hjumps] at hl'
    · rfl
    · rw [hclosed]
      simp [sweep]
  | false =>
    have hjumps : w.e.kind.jumps = false := by
      unfold Kind.redirects at hr
      simp only [Bool.or_eq_false_iff] at hr
      exact hr.1
    have hpc : t.pc.toNat = s.pc.toNat + 4 := by
      rw [w.pc, w.fits.sequential hjumps]
      exact toNat_add_of_lt (by simp; omega)
    have hopened : (x.add (s.pc, false)).opened.getD t.pc = first := rfl
    rw [hjumps, if_neg Bool.false_ne_true] at hspan
    refine ⟨fun _ => ⟨i + w.e.kind.span j d, w.e.kind.leadAfter j d, Kind.leadAfter_le _ hj _, ?_, hl', ?_, ?_⟩, ?_⟩
    · omega
    · rw [hopened, hpc]
      omega
    · rw [hopened, hlog]
      rfl
    · intro hhalt
      rw [w.halted, decide_eq_true_iff] at hhalt
      simp [Kind.redirects, hhalt] at hr

theorem streamed_run (hmem : cfg.memorySize + 16 ≤ 2 ^ 32) (hen : cfg.icache.enabled = true) (h : cfg.Accepted)
    {program data : ℕ → BitVec 8} {pc : BitVec 32} {n : ℕ} {t : CpuModel cfg}
    (ht : Exec.iter step n (boot cfg h program data pc) = some t) :
    Streamed t (segments (retiredPcs n (boot cfg h program data pc))) := by
  refine (Exec.log_inv (P := fun s l => s.Inv ∧ Streamed s (segments l)) (fun s a u l hs hstep => ?_) ht
    ⟨inv_boot h program data pc, streamed_boot h program data pc⟩).2
  rcases step_ok.1 hstep with ⟨hh, -, rfl⟩ | ⟨⟨w⟩⟩
  · rw [retiredPc, if_pos hh, List.append_nil]
    exact hs
  · have hlive : ¬ s.halted = true := by simp [w.running.live]
    rw [retiredPc, if_neg hlive, segments_snoc, w.ends]
    exact ⟨w.inv hs.1 hmem, w.streamed hs.2 hs.1 hmem hen⟩

/-- the I-cache accesses so far: one for each retired instruction, two behind each redirect, the lead, and the replays
of D-cache stalls and of the drain -/
def Fetches (s : CpuModel cfg) : Prop :=
  ∃ j ≤ 3, Lead s.caches.frontEnd s.pc j ∧ (s.halted = true → j = 2) ∧
    s.icache.stats.accesses = s.timing.stats.retired + 2 * (s.stats.branchesTaken + s.stats.jumps) + j +
      s.dcache.stats.stallCycles + if s.halted then 2 else 0

theorem Stepped.fetches {s t : CpuModel cfg} {b : Bool} (w : Stepped s b t) (h : s.Fetches)
    (hi : s.Inv) (hmem : cfg.memorySize + 16 ≤ 2 ^ 32) (hen : cfg.icache.enabled = true) : t.Fetches := by
  obtain ⟨j, hj, hl, -, haccesses⟩ := h
  obtain ⟨q⟩ := w.charged
  obtain ⟨hs, hl'⟩ := w.served hi hmem hj hl q
  have hspan := w.e.kind.span_lead hj (redirects_of_dstall s.caches w.e.kind)
  have hjumps := w.jumps
  have hretired : t.timing.stats.retired = s.timing.stats.retired + 1 := by
    rw [w.timing]
    rfl
  have hd : t.dcache.stats.stallCycles = s.dcache.stats.stallCycles + _ := q.dcache_stall
  have hi' : t.icache.stats.accesses = s.icache.stats.accesses + _ := congrArg CacheStats.accesses hs.stats
  rw [CacheConfig.fetches, if_pos hen, sweep_length, Kind.holds, if_pos hen] at hi'
  refine ⟨w.e.kind.leadAfter j (s.caches.dstall w.e.kind), Kind.leadAfter_le _ hj _, hl', fun hhalt => ?_, ?_⟩
  · rw [w.halted, decide_eq_true_iff] at hhalt
    rw [hhalt]
    rfl
  · rw [w.running.live, if_neg Bool.false_ne_true] at haccesses
    rw [hi', hd, hretired, w.halted]
    by_cases hsys : w.e.kind = .system
    · rw [if_pos hsys, decide_eq_true hsys, if_pos rfl]
      omega
    · rw [if_neg hsys, decide_eq_false hsys, if_neg Bool.false_ne_true]
      omega

theorem fetches_run (hmem : cfg.memorySize + 16 ≤ 2 ^ 32) (hen : cfg.icache.enabled = true) (h : cfg.Accepted)
    {program data : ℕ → BitVec 8} {pc : BitVec 32} {n : ℕ} {t : CpuModel cfg}
    (ht : Exec.iter step n (boot cfg h program data pc) = some t) : t.Fetches := by
  have hboot : (boot cfg h program data pc).Fetches := by
    refine ⟨0, by omega, lead_boot h program data pc, ?_, rfl⟩
    intro hh
    cases hh
  refine (run_inv (P := fun s => s.Inv ∧ s.Fetches) ?_ ht ⟨inv_boot h program data pc, hboot⟩).2
  intro s u b w ⟨hi, hf⟩
  exact ⟨w.inv hi hmem, w.fetches hf hi hmem hen⟩

end CpuModel

/-- **The canonical fetch stream.** When a run halts, its first-time I-cache requests are the words of its segments, in
order, and its reported I-cache accesses follow from its retired counts and stalls. -/
theorem canonical_stream (cfg : CpuConfig) (h : cfg.Accepted) (hmem : cfg.memorySize + 16 ≤ 2 ^ 32)
    (hen : cfg.icache.enabled = true) (program data : ℕ → BitVec 8) (pc : BitVec 32) (n : ℕ) (t : CpuModel cfg)
    (ht : Exec.iter CpuModel.step n (boot cfg h program data pc) = some t) (hhalt : t.halted = true) :
    (segments (CpuModel.retiredPcs n (boot cfg h program data pc))).opened = none ∧
    (t.ifetch.requests.filter fun r => !r.replay).map Request.pc =
      (segments (CpuModel.retiredPcs n (boot cfg h program data pc))).words ∧
    t.stats.icacheAccesses = t.stats.retired + 2 * (t.stats.branchesTaken + t.stats.jumps) + 4 + t.stats.stallDcache +
      (t.stats.stallLoadUse + t.stats.stallDivider - t.stats.stallCacheOverlap) := by
  obtain ⟨hopened, hstream⟩ := (CpuModel.streamed_run hmem hen h ht).done hhalt
  refine ⟨hopened, hstream, ?_⟩
  obtain ⟨j, -, -, hj, haccesses⟩ := CpuModel.fetches_run hmem hen h ht
  have hrep := (CpuModel.inv_run hmem h ht).reported
  rw [hhalt, if_pos rfl, hj hhalt] at haccesses
  rw [hrep.iaccesses, hrep.iholds, haccesses, hrep.retired, hrep.dstalls, CpuModel.holdReplays, if_pos hen]
  simp only
  split_ifs <;> omega

theorem canonical_stream_cacheTest : ∃ t,
    Exec.iter CpuModel.step 11 (boot splitCaches splitCaches_accepted (wordImage cacheTest) 0 0) = some t ∧
    t.halted = true ∧
    (t.ifetch.requests.filter fun r => !r.replay).map Request.pc =
      (segments (CpuModel.retiredPcs 11 (boot splitCaches splitCaches_accepted (wordImage cacheTest) 0 0))).words := by
  obtain ⟨t, ht, hhalt⟩ := (Option.any_eq_true _ _).1 (by decide +kernel :
    (Exec.iter CpuModel.step 11 (boot splitCaches splitCaches_accepted (wordImage cacheTest) 0 0)).any
      (fun t => t.halted) = true)
  exact ⟨t, ht, hhalt, (canonical_stream splitCaches splitCaches_accepted (by decide) rfl _ _ _ _ t ht hhalt).2.1⟩

end Rv32im
