/-
The fetch stream of an enabled I-cache, call by call.

Every front-end call is a list of requests to the I-cache. `Fetched f g reqs stalls` says what such a list does: the
contents afterwards are the reads of the list, the counters move by its length and its misses, and the returned 32-bit
stall is the number of misses times the clean-miss penalty. It composes (`Fetched.trans`).

- `ensureThrough_ok`: below the top of the address space, `ensure_through` returns after exactly the requests from the
  pointer through the target.
- `ensureThrough_top`: it never returns when the target is the last word of the address space.
- `onDcacheStall_performs`, `redirect_performs`, `onSystemDrain_performs`: the other calls, from these.
- `noThrow_ensureThrough` and its corollaries: no call throws on a word-aligned PC.
-/
import Rv32im.Model.Counters
import Rv32im.Model.Cpu

namespace Rv32im

/-! ## Word-aligned addresses -/

def Aligned (a : BitVec 32) : Prop := a.toNat % 4 = 0

theorem and_three (a : BitVec 32) : (a &&& 3).toNat = a.toNat % 4 := by
  rw [BitVec.toNat_and]
  exact Nat.and_two_pow_sub_one_eq_mod a.toNat 2

theorem aligned_iff {a : BitVec 32} : a &&& 3 = 0 ↔ Aligned a := by
  rw [← BitVec.toNat_inj, and_three]
  rfl

theorem Aligned.add {a b : BitVec 32} (ha : Aligned a) (hb : Aligned b) : Aligned (a + b) := by
  unfold Aligned at *
  rw [BitVec.toNat_add]
  omega

theorem aligned_four : Aligned 4 := rfl
theorem aligned_eight : Aligned 8 := rfl
theorem aligned_twelve : Aligned 12 := rfl

/-! ## Lists of requests -/

/-- n first-time requests from `next` upwards -/
def sweep (next : BitVec 32) : ℕ → List Request
  | 0 => []
  | n + 1 => ⟨next, false⟩ :: sweep (next + 4) n

/-- the requests that move the pointer from `next` past `target` -/
def through (next target : BitVec 32) : List Request :=
  if next ≤ target then sweep next ((target.toNat - next.toNat) / 4 + 1) else []

/-- the pointer afterwards -/
def nextAfter (next target : BitVec 32) : BitVec 32 := if next ≤ target then target + 4 else next

/-- the requests below the top of the address space, one at a time -/
theorem through_cons {next target : BitVec 32} (hn : Aligned next) (ht : Aligned target) (hle : next ≤ target)
    (htop : target.toNat + 4 < 2 ^ 32) :
    through next target = ⟨next, false⟩ :: through (next + 4) target ∧
      nextAfter next target = nextAfter (next + 4) target := by
  unfold Aligned at hn ht
  have hle' : next.toNat ≤ target.toNat := hle
  have h4 : (next + 4).toNat = next.toNat + 4 := toNat_add_of_lt (by simp; omega)
  by_cases hlast : next + 4 ≤ target
  · have hlast' : next.toNat + 4 ≤ target.toNat := by rw [← h4]; exact hlast
    refine ⟨?_, by rw [nextAfter, nextAfter, if_pos hle, if_pos hlast]⟩
    rw [through, through, if_pos hle, if_pos hlast, h4]
    rw [show (target.toNat - next.toNat) / 4 + 1 = ((target.toNat - (next.toNat + 4)) / 4 + 1) + 1 by omega]
    rfl
  · have hlast' : target.toNat < next.toNat + 4 := by rw [← h4]; simpa [BitVec.lt_def] using hlast
    have heq : next = target := BitVec.eq_of_toNat_eq (by omega)
    subst heq
    refine ⟨?_, by rw [nextAfter, nextAfter, if_pos hle, if_neg hlast]⟩
    rw [through, through, if_pos hle, if_neg hlast]
    simp [sweep]

/-! ## What a list of requests does -/

def blocks (reqs : List Request) : List ℕ := reqs.map fun r => block r.pc

@[simp] theorem blocks_nil : blocks [] = [] := rfl
@[simp] theorem blocks_cons (r : Request) (l : List Request) : blocks (r :: l) = block r.pc :: blocks l := rfl
@[simp] theorem blocks_append (l l' : List Request) : blocks (l ++ l') = blocks l ++ blocks l' := by simp [blocks]
@[simp] theorem blocks_length (l : List Request) : (blocks l).length = l.length := by simp [blocks]

namespace FrontEnd

variable {config : IFetchStreamConfig} {icfg : CacheConfig}

/-- the misses of a list of requests, from the contents before it -/
def misses (f : FrontEnd config icfg) (reqs : List Request) : ℕ :=
  DirectMapped.misses icfg.idx f.icache.contents (blocks reqs)

/-- the misses behind a list of requests start from the contents it leaves -/
theorem misses_append {f g : FrontEnd config icfg} {l : List Request}
    (h : g.icache.contents = DirectMapped.readAll icfg.idx f.icache.contents (blocks l)) (l' : List Request) :
    f.misses (l ++ l') = f.misses l + g.misses l' := by
  unfold misses
  rw [blocks_append, DirectMapped.misses_append, h]

/-- `g` is `f` after the requests `reqs`, which stalled for `stalls` -/
structure Fetched (f g : FrontEnd config icfg) (reqs : List Request) (stalls : BitVec 32) : Prop where
  contents : g.icache.contents = DirectMapped.readAll icfg.idx f.icache.contents (blocks reqs)
  clean : DirectMapped.Clean g.icache.contents
  stats : g.icache.stats = f.icache.stats.addReads reqs.length (f.misses reqs) icfg.penalty
  stalls : stalls = BitVec.ofNat 32 (f.misses reqs * icfg.penalty)
  log : g.ifetch.requests = f.ifetch.requests ++ reqs

theorem misses_le (f : FrontEnd config icfg) (reqs : List Request) : f.misses reqs ≤ reqs.length := by
  simpa [misses] using DirectMapped.misses_le_length f.icache.contents (blocks reqs)

theorem Fetched.refl {f : FrontEnd config icfg} (h : DirectMapped.Clean f.icache.contents) : Fetched f f [] 0 where
  contents := rfl
  clean := h
  stats := by simp [CacheStats.addReads, misses]
  stalls := by simp [misses]
  log := by simp

theorem Fetched.trans {f g k : FrontEnd config icfg} {l l' : List Request} {st st' : BitVec 32}
    (h : Fetched f g l st) (h' : Fetched g k l' st') : Fetched f k (l ++ l') (st + st') := by
  constructor
  · rw [h'.contents, h.contents, blocks_append, DirectMapped.readAll_append]
  · exact h'.clean
  · rw [h'.stats, h.stats, misses_append h.contents, List.length_append,
      CacheStats.addReads_addReads _ (f.misses_le l) (g.misses_le l')]
  · rw [h'.stalls, h.stalls, misses_append h.contents, Nat.add_mul, BitVec.ofNat_add]
  · rw [h'.log, h.log, List.append_assoc]

/-- moving the pointer or the fetch counters does not change what was fetched -/
theorem Fetched.congr {f g k : FrontEnd config icfg} {l : List Request} {st : BitVec 32} (h : Fetched f g l st)
    (hi : k.icache = g.icache) (hr : k.ifetch.requests = g.ifetch.requests) : Fetched f k l st := by
  constructor
  · rw [hi]; exact h.contents
  · rw [hi]; exact h.clean
  · rw [hi]; exact h.stats
  · exact h.stalls
  · rw [hr]; exact h.log

/-! ## One request -/

theorem issue_ok (hen : icfg.enabled = true) {f : FrontEnd config icfg} (hc : DirectMapped.Clean f.icache.contents)
    (pc : BitVec 32) (replay lookahead : Bool) :
    ∃ a g, issue pc replay lookahead f = .ok a g ∧ Fetched f g [⟨pc, replay⟩] a.stallCycles ∧
      g.ifetch.nextSequentialPc = f.ifetch.nextSequentialPc := by
  refine ⟨(f.icache.access pc false).1,
    ⟨if icfg.enabled then count f.ifetch pc replay lookahead else f.ifetch, (f.icache.access pc false).2⟩, rfl, ?_,
    by simp [hen, count]⟩
  have hfst := f.icache.access_fst hen pc false
  have hcon := f.icache.access_contents hen pc false
  have hst := f.icache.access_stats hen pc false
  have hmiss : f.misses [⟨pc, replay⟩] =
      if DirectMapped.Resident icfg.idx f.icache.contents (block pc) then 0 else 1 := by
    simp [misses, DirectMapped.misses_cons]
  have hreport : (f.icache.access pc false).1 = if DirectMapped.Resident icfg.idx f.icache.contents (block pc) then
      icfg.report .hit else icfg.report .clean := by
    rw [hfst]
    split_ifs with hres
    · rw [DirectMapped.result_hit.2 hres]
    · have hne : DirectMapped.result icfg.idx f.icache.contents (block pc) ≠ .hit :=
        fun e => hres (DirectMapped.result_hit.1 e)
      have hnd : DirectMapped.result icfg.idx f.icache.contents (block pc) ≠ .dirty :=
        DirectMapped.clean_result hc (block pc)
      cases hr : DirectMapped.result icfg.idx f.icache.contents (block pc) with
      | hit => exact absurd hr hne
      | dirty => exact absurd hr hnd
      | clean => rfl
  constructor
  · rw [hcon]; rfl
  · rw [hcon]; exact DirectMapped.clean_access hc (block pc)
  · rw [hst, hmiss, hreport]
    split_ifs <;> simp [CacheStats.charge, CacheStats.addReads, CacheConfig.report, CacheConfig.penalty]
  · rw [hmiss]
    show (f.icache.access pc false).1.stallCycles = _
    rw [hreport]
    split_ifs <;> simp [CacheConfig.report, CacheConfig.penalty]
  · simp [hen, count]

/-! ## ensure_through -/

/-- one turn of the loop: the word at the pointer is requested, and the pointer moves on by a word -/
theorem ensureLoop_turn {target : BitVec 32} {f g : FrontEnd config icfg} {a : CacheAccessResult}
    (hle : f.ifetch.nextSequentialPc ≤ target)
    (hissue : issue f.ifetch.nextSequentialPc false (f.ifetch.nextSequentialPc ≠ target) f = .ok a g) (fuel : ℕ)
    (st : BitVec 32) :
    ensureLoop target (fuel + 1) st f = ensureLoop target fuel (st + a.stallCycles)
      { g with ifetch := { g.ifetch with nextSequentialPc := f.ifetch.nextSequentialPc + 4 } } := by
  simp only [ensureLoop, Exec.bind_apply, Exec.get_apply, Exec.andThen_ok]
  rw [if_pos hle, Exec.bind_apply, hissue]
  rfl

/-- the loop ends where the pointer is behind the target -/
theorem ensureLoop_end {target : BitVec 32} {f : FrontEnd config icfg} (hle : ¬ f.ifetch.nextSequentialPc ≤ target)
    (fuel : ℕ) (st : BitVec 32) : ensureLoop target (fuel + 1) st f = .ok st f := by
  simp only [ensureLoop, Exec.bind_apply, Exec.get_apply, Exec.andThen_ok]
  rw [if_neg hle]
  rfl

/-- the loop with enough fuel, by induction on the fuel: each iteration is the head of `through` -/
theorem ensureLoop_ok (hen : icfg.enabled = true) {target : BitVec 32} (ht : Aligned target)
    (htop : target.toNat + 4 < 2 ^ 32) (fuel : ℕ) {f : FrontEnd config icfg} (st : BitVec 32)
    (hc : DirectMapped.Clean f.icache.contents) (hn : Aligned f.ifetch.nextSequentialPc)
    (hfuel : (target.toNat + 4 - f.ifetch.nextSequentialPc.toNat) / 4 < fuel) :
    ∃ x g, ensureLoop target fuel st f = .ok (st + x) g ∧
      Fetched f g (through f.ifetch.nextSequentialPc target) x ∧
      g.ifetch.nextSequentialPc = nextAfter f.ifetch.nextSequentialPc target := by
  induction fuel generalizing f st with
  | zero => omega
  | succ fuel ih =>
    by_cases hle : f.ifetch.nextSequentialPc ≤ target
    · obtain ⟨a, g, hissue, hfetched, hnext⟩ :=
        issue_ok hen hc f.ifetch.nextSequentialPc false (f.ifetch.nextSequentialPc ≠ target)
      obtain ⟨hthrough, hafter⟩ := through_cons hn ht hle htop
      have hle' : f.ifetch.nextSequentialPc.toNat ≤ target.toNat := hle
      have h4 : (f.ifetch.nextSequentialPc + 4).toNat = f.ifetch.nextSequentialPc.toNat + 4 :=
        toNat_add_of_lt (by simp; omega)
      set g' : FrontEnd config icfg :=
        { g with ifetch := { g.ifetch with nextSequentialPc := f.ifetch.nextSequentialPc + 4 } } with hg'
      have hfetched' : Fetched f g' [⟨f.ifetch.nextSequentialPc, false⟩] a.stallCycles := hfetched.congr rfl rfl
      obtain ⟨x, k, hloop, hk, hknext⟩ := ih (f := g') (st + a.stallCycles) hfetched'.clean (hn.add aligned_four)
        (by show (target.toNat + 4 - (f.ifetch.nextSequentialPc + 4).toNat) / 4 < fuel; rw [h4]; omega)
      refine ⟨a.stallCycles + x, k, ?_, ?_, ?_⟩
      · rw [ensureLoop_turn hle hissue, ← hg', hloop, BitVec.add_assoc]
      · rw [hthrough]; exact hfetched'.trans hk
      · rw [hknext, hafter]
    · refine ⟨0, f, by rw [ensureLoop_end hle]; simp, ?_, by rw [nextAfter, if_neg hle]⟩
      rw [through, if_neg hle]
      exact Fetched.refl hc

theorem ensureThrough_ok (hen : icfg.enabled = true) {target : BitVec 32} (ht : Aligned target)
    (htop : target.toNat + 4 < 2 ^ 32) {f : FrontEnd config icfg} (hc : DirectMapped.Clean f.icache.contents)
    (hn : Aligned f.ifetch.nextSequentialPc) :
    ∃ x g, ensureThrough target f = .ok x g ∧ Fetched f g (through f.ifetch.nextSequentialPc target) x ∧
      g.ifetch.nextSequentialPc = nextAfter f.ifetch.nextSequentialPc target := by
  obtain ⟨x, g, hloop, hf, hnext⟩ := ensureLoop_ok hen ht htop (2 ^ 30 + 1) 0 hc hn (by omega)
  refine ⟨x, g, ?_, hf, hnext⟩
  have hal : ¬ target &&& 3 ≠ 0 := not_not.2 (aligned_iff.2 ht)
  simp only [ensureThrough, hen, Bool.not_true, Bool.false_eq_true, if_false, Exec.throwIf, if_neg hal]
  rw [pure_bind, hloop]
  simp

/-- **The last word of the address space.** The pointer never exceeds it, so the loop does not end. -/
theorem ensureLoop_top (fuel : ℕ) (st : BitVec 32) {f : FrontEnd config icfg}
    (hn : Aligned f.ifetch.nextSequentialPc) : ensureLoop 0xfffffffc fuel st f = .diverge := by
  induction fuel generalizing f st with
  | zero => rfl
  | succ fuel ih =>
    have hle : f.ifetch.nextSequentialPc ≤ 0xfffffffc := by
      unfold Aligned at hn
      have := f.ifetch.nextSequentialPc.isLt
      rw [BitVec.le_def]
      simp
      omega
    rw [ensureLoop_turn hle rfl]
    exact ih _ (hn.add aligned_four)

theorem ensureThrough_top (hen : icfg.enabled = true) {f : FrontEnd config icfg}
    (hn : Aligned f.ifetch.nextSequentialPc) : ensureThrough 0xfffffffc f = .diverge := by
  have hal : ¬ (0xfffffffc : BitVec 32) &&& 3 ≠ 0 := by decide
  simp only [ensureThrough, hen, Bool.not_true, Bool.false_eq_true, if_false, Exec.throwIf, if_neg hal]
  rw [pure_bind, ensureLoop_top _ _ hn]

theorem ensureThrough_disabled (hen : icfg.enabled = false) (target : BitVec 32) (f : FrontEnd config icfg) :
    ensureThrough target f = .ok 0 f := by
  simp [ensureThrough, hen]

/-! ## Replays -/

theorem replayLoop_ok (hen : icfg.enabled = true) (pc : BitVec 32) (lookahead : Bool) (n : ℕ)
    {f : FrontEnd config icfg} (hc : DirectMapped.Clean f.icache.contents) (st : BitVec 32) :
    ∃ x g, replayLoop pc lookahead n st f = .ok (st + x) g ∧ Fetched f g (List.replicate n ⟨pc, true⟩) x ∧
      g.ifetch.nextSequentialPc = f.ifetch.nextSequentialPc := by
  induction n generalizing f st with
  | zero => exact ⟨0, f, by simp [replayLoop], Fetched.refl hc, rfl⟩
  | succ n ih =>
    obtain ⟨a, g, hissue, hfetched, hnext⟩ := issue_ok hen hc pc true lookahead
    obtain ⟨x, k, hloop, hk, hknext⟩ := ih hfetched.clean (st + a.stallCycles)
    refine ⟨a.stallCycles + x, k, ?_, ?_, hknext.trans hnext⟩
    · rw [replayLoop, Exec.bind_apply, hissue, Exec.andThen_ok, hloop, BitVec.add_assoc]
    · rw [List.replicate_succ]; exact hfetched.trans hk

/-! ## Whole calls -/

/-- the first-time requests through `target`; none when the I-cache is disabled -/
def firsts (f : FrontEnd config icfg) (target : BitVec 32) : List Request :=
  if icfg.enabled then through f.ifetch.nextSequentialPc target else []

def nextFrom (f : FrontEnd config icfg) (target : BitVec 32) : BitVec 32 :=
  if icfg.enabled then nextAfter f.ifetch.nextSequentialPc target else f.ifetch.nextSequentialPc

def replays (icfg : CacheConfig) (n : ℕ) (pc : BitVec 32) : List Request :=
  if icfg.enabled then List.replicate n ⟨pc, true⟩ else []

/-- the call returns after exactly the requests `reqs`, and leaves the pointer at `next` -/
def Performs (m : FetchM config icfg (BitVec 32)) (f : FrontEnd config icfg) (reqs : List Request)
    (next : BitVec 32) : Prop :=
  ∃ x g, m f = .ok x g ∧ Fetched f g reqs x ∧ g.ifetch.nextSequentialPc = next

/-- a target that the fetch loop can pass -/
structure Passable (f : FrontEnd config icfg) (target : BitVec 32) : Prop where
  aligned : Aligned target
  below : target.toNat + 4 < 2 ^ 32
  next : icfg.enabled = true → Aligned f.ifetch.nextSequentialPc

theorem ensureThrough_performs {f : FrontEnd config icfg} {target : BitVec 32} (h : f.Passable target)
    (hc : DirectMapped.Clean f.icache.contents) :
    Performs (ensureThrough target) f (f.firsts target) (f.nextFrom target) := by
  cases hen : icfg.enabled with
  | false => exact ⟨0, f, ensureThrough_disabled hen target f, by simpa [firsts, hen] using Fetched.refl hc,
      by simp [nextFrom, hen]⟩
  | true =>
    obtain ⟨x, g, hok, hf, hn⟩ := ensureThrough_ok hen h.aligned h.below hc (h.next hen)
    exact ⟨x, g, hok, by simpa [firsts, hen] using hf, by simpa [nextFrom, hen] using hn⟩

/-- a look-ahead followed by n replays of its target: the body of `on_dcache_stall` and `on_system_drain` -/
theorem hold_performs {f : FrontEnd config icfg} {target : BitVec 32} (h : f.Passable target)
    (hc : DirectMapped.Clean f.icache.contents) (hen : icfg.enabled = true) (lookahead : Bool) (n : ℕ) :
    Performs (do
        let stalls ← ensureThrough target
        replayLoop target lookahead n stalls) f
      (f.firsts target ++ replays icfg n target) (f.nextFrom target) := by
  obtain ⟨x, g, hok, hf, hn⟩ := ensureThrough_performs h hc
  obtain ⟨y, k, hrep, hk, hkn⟩ := replayLoop_ok hen target lookahead n hf.clean x
  refine ⟨x + y, k, ?_, hf.trans (by simpa [replays, hen] using hk), hkn.trans hn⟩
  rw [Exec.bind_apply, hok, Exec.andThen_ok, hrep]

theorem onDcacheStall_performs {f : FrontEnd config icfg} {pc d : BitVec 32} (hd : d ≠ 0)
    (h : f.Passable (pc + config.dcacheHoldAheadBytes)) (hc : DirectMapped.Clean f.icache.contents) :
    Performs (onDcacheStall pc d) f (f.firsts (pc + config.dcacheHoldAheadBytes) ++
      replays icfg d.toNat (pc + config.dcacheHoldAheadBytes)) (f.nextFrom (pc + config.dcacheHoldAheadBytes)) := by
  cases hen : icfg.enabled with
  | false =>
    refine ⟨0, f, by simp [onDcacheStall, hen], ?_, by simp [nextFrom, hen]⟩
    simpa [firsts, replays, hen] using Fetched.refl hc
  | true =>
    have hgo : ¬ (!icfg.enabled || decide (d = 0)) = true := by simpa [hen] using hd
    unfold onDcacheStall
    rw [if_neg hgo]
    exact hold_performs h hc hen false d.toNat

theorem onDcacheStall_zero (pc : BitVec 32) (f : FrontEnd config icfg) : onDcacheStall pc 0 f = .ok 0 f := by
  simp [onDcacheStall]

theorem redirect_performs {f : FrontEnd config icfg} {wrong pc : BitVec 32} (h : f.Passable (pc + wrong))
    (hc : DirectMapped.Clean f.icache.contents) (target : BitVec 32) :
    Performs (redirect wrong pc target) f (f.firsts (pc + wrong)) target := by
  cases hen : icfg.enabled with
  | false =>
    refine ⟨0, _, by simp only [redirect, hen]; rfl, ?_, rfl⟩
    have hnone : f.firsts (pc + wrong) = [] := by simp [firsts, hen]
    rw [hnone]
    exact (Fetched.refl hc).congr rfl rfl
  | true =>
    obtain ⟨x, g, hok, hf, -⟩ := ensureThrough_performs h hc
    have hrun : ∃ k, redirect wrong pc target f = .ok x k ∧ k.icache = g.icache ∧
        k.ifetch.requests = g.ifetch.requests ∧ k.ifetch.nextSequentialPc = target := by
      simp only [redirect, hen, Bool.not_true, Bool.false_eq_true, if_false, Exec.bind_apply, Exec.get_apply,
        Exec.andThen_ok, hok, Exec.modify_apply, Exec.pure_apply]
      exact ⟨_, rfl, rfl, rfl, rfl⟩
    obtain ⟨k, hk, hi, hr, hn⟩ := hrun
    exact ⟨x, k, hk, hf.congr hi hr, hn⟩

theorem onSystemDrain_performs {f : FrontEnd config icfg} {pc : BitVec 32}
    (h : f.Passable (pc + config.systemLookaheadBytes)) (hc : DirectMapped.Clean f.icache.contents) :
    Performs (onSystemDrain pc) f (f.firsts (pc + config.systemLookaheadBytes) ++
      replays icfg config.systemHoldHits.toNat (pc + config.systemLookaheadBytes))
      (f.nextFrom (pc + config.systemLookaheadBytes)) := by
  cases hen : icfg.enabled with
  | false =>
    refine ⟨0, f, by simp [onSystemDrain, hen], ?_, by simp [nextFrom, hen]⟩
    simpa [firsts, replays, hen] using Fetched.refl hc
  | true =>
    have := hold_performs h hc hen true config.systemHoldHits.toNat
    simpa [onSystemDrain, hen] using this

/-! ## No call throws on a word-aligned PC -/

theorem noThrow_issue (pc : BitVec 32) (replay lookahead : Bool) :
    (issue pc replay lookahead : FetchM config icfg CacheAccessResult).NoThrow := by
  intro f e g h
  cases h

theorem noThrow_ensureLoop (target : BitVec 32) (fuel : ℕ) (st : BitVec 32) :
    (ensureLoop target fuel st : FetchM config icfg (BitVec 32)).NoThrow := by
  induction fuel generalizing st with
  | zero => intro f e g h; cases h
  | succ fuel ih =>
    refine Exec.noThrow_get.bind fun f => ?_
    show Exec.NoThrow (if f.ifetch.nextSequentialPc ≤ target then _ else _)
    split_ifs
    · exact (noThrow_issue _ _ _).bind fun a => (Exec.noThrow_modify _).bind fun _ => ih _
    · exact Exec.noThrow_pure _

theorem noThrow_ensureThrough {target : BitVec 32} (h : Aligned target) :
    (ensureThrough target : FetchM config icfg (BitVec 32)).NoThrow := by
  have hal : ¬ target &&& 3 ≠ 0 := not_not.2 (aligned_iff.2 h)
  unfold ensureThrough
  rw [Exec.throwIf, if_neg hal, pure_bind]
  split_ifs
  · exact Exec.noThrow_pure _
  · exact noThrow_ensureLoop _ _ _

theorem noThrow_replayLoop (pc : BitVec 32) (lookahead : Bool) (n : ℕ) (st : BitVec 32) :
    (replayLoop pc lookahead n st : FetchM config icfg (BitVec 32)).NoThrow := by
  induction n generalizing st with
  | zero => exact Exec.noThrow_pure _
  | succ n ih => exact (noThrow_issue _ _ _).bind fun a => ih _

theorem noThrow_onDcacheStall {pc : BitVec 32} (h : Aligned (pc + config.dcacheHoldAheadBytes)) (d : BitVec 32) :
    (onDcacheStall pc d : FetchM config icfg (BitVec 32)).NoThrow := by
  unfold onDcacheStall
  split_ifs
  · exact Exec.noThrow_pure _
  · exact (noThrow_ensureThrough h).bind fun _ => noThrow_replayLoop _ _ _ _

theorem noThrow_redirect {wrong pc : BitVec 32} (h : Aligned (pc + wrong)) (target : BitVec 32) :
    (redirect wrong pc target : FetchM config icfg (BitVec 32)).NoThrow := by
  unfold redirect
  split_ifs
  · exact (Exec.noThrow_modify _).bind fun _ => Exec.noThrow_pure _
  · exact Exec.noThrow_get.bind fun _ => (noThrow_ensureThrough h).bind fun _ =>
      (Exec.noThrow_modify _).bind fun _ => Exec.noThrow_pure _

theorem noThrow_onSystemDrain {pc : BitVec 32} (h : Aligned (pc + config.systemLookaheadBytes)) :
    (onSystemDrain pc : FetchM config icfg (BitVec 32)).NoThrow := by
  unfold onSystemDrain
  split_ifs
  · exact Exec.noThrow_pure _
  · exact (noThrow_ensureThrough h).bind fun _ => noThrow_replayLoop _ _ _ _

end FrontEnd

end Rv32im
