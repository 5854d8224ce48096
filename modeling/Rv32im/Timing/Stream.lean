/-
The fetch stream of one instruction.

The fetch pointer leads the pc by j words, 0 ≤ j ≤ 3, when an instruction starts (`Lead`). The three stages of the
instruction then continue one ascending sweep from the pointer: the demand fetch up to pc, the look-ahead of a D-cache
stall up to pc+12, the wrong path or drain up to pc+8. Replays come behind the sweep and are hits.

- `Served`: first-time requests followed by replays of resident words. Replays count as hits and change nothing else.
- `serve`: what an instruction with lead j does to the fetch stream: `span` first-time requests from the pointer.
- `lead_serve`: the lead it leaves to the next instruction, again at most 3.
-/
import Rv32im.Timing.Charge

namespace Rv32im

/-! ## Sweeps -/

theorem sweep_append (next : BitVec 32) (i k : ℕ) :
    sweep next (i + k) = sweep next i ++ sweep (next + BitVec.ofNat 32 (4 * i)) k := by
  induction i generalizing next with
  | zero => simp [sweep]
  | succ i ih =>
    have h4 : next + 4 + BitVec.ofNat 32 (4 * i) = next + BitVec.ofNat 32 (4 * (i + 1)) := by
      rw [BitVec.add_assoc, Nat.mul_succ, Nat.add_comm (4 * i), BitVec.ofNat_add]
      rfl
    rw [Nat.succ_add, sweep, sweep, ih, h4, List.cons_append]

@[simp] theorem sweep_length (next : BitVec 32) (n : ℕ) : (sweep next n).length = n := by
  induction n generalizing next with
  | zero => rfl
  | succ n ih => rw [sweep, List.length_cons, ih]

theorem sweep_fresh (next : BitVec 32) (n : ℕ) : ∀ r ∈ sweep next n, r.replay = false := by
  induction n generalizing next with
  | zero =>
    intro r hr
    cases hr
  | succ n ih =>
    intro r hr
    rcases List.mem_cons.1 hr with rfl | hr
    · rfl
    · exact ih _ r hr

/-- the requests through a target, from a pointer at most one word above it -/
theorem through_eq_sweep {next target : BitVec 32} (hn : Aligned next) (ht : Aligned target) :
    through next target = sweep next ((target.toNat + 4 - next.toNat) / 4) := by
  unfold Aligned at hn ht
  unfold through
  split_ifs with hle
  · rw [BitVec.le_def] at hle
    congr 1
    omega
  · rw [BitVec.le_def] at hle
    rw [show (target.toNat + 4 - next.toNat) / 4 = 0 by omega]
    rfl

/-- the first-time requests of an I-cache; a disabled one gets none -/
def CacheConfig.fetches (icfg : CacheConfig) (next : BitVec 32) (n : ℕ) : List Request :=
  if icfg.enabled then sweep next n else []

theorem CacheConfig.fetches_fresh (icfg : CacheConfig) (next : BitVec 32) (n : ℕ) :
    ∀ r ∈ icfg.fetches next n, r.replay = false := by
  unfold CacheConfig.fetches
  split_ifs
  · exact sweep_fresh next n
  · simp

theorem CacheConfig.fetches_append (icfg : CacheConfig) (next : BitVec 32) (i k : ℕ) :
    icfg.fetches next (i + k) = icfg.fetches next i ++ icfg.fetches (next + BitVec.ofNat 32 (4 * i)) k := by
  unfold CacheConfig.fetches
  split_ifs
  · exact sweep_append next i k
  · rfl

theorem CacheConfig.fetches_length_le (icfg : CacheConfig) (next : BitVec 32) (n : ℕ) :
    (icfg.fetches next n).length ≤ n := by
  unfold CacheConfig.fetches
  split_ifs <;> simp

@[simp] theorem CacheConfig.fetches_zero (icfg : CacheConfig) (next : BitVec 32) : icfg.fetches next 0 = [] := by
  unfold CacheConfig.fetches
  split_ifs <;> rfl

namespace FrontEnd

variable {icfg : CacheConfig}

/-! ## First-time requests and replays -/

/-- the first-time requests of a history -/
def firstTime (reqs : List Request) : List Request := reqs.filter fun r => !r.replay

/-- `g` is `f` after the first-time requests `l` and n replays, which stalled for `stalls` -/
structure Served (f g : FrontEnd {} icfg) (l : List Request) (n : ℕ) (stalls : BitVec 32) : Prop where
  contents : g.icache.contents = DirectMapped.readAll icfg.idx f.icache.contents (blocks l)
  clean : DirectMapped.Clean g.icache.contents
  stats : g.icache.stats = f.icache.stats.addReads (l.length + n) (f.misses l) icfg.penalty
  stalls : stalls = BitVec.ofNat 32 (f.misses l * icfg.penalty)
  log : firstTime g.ifetch.requests = firstTime f.ifetch.requests ++ l

theorem Served.refl {f : FrontEnd {} icfg} (h : DirectMapped.Clean f.icache.contents) : Served f f [] 0 0 where
  contents := rfl
  clean := h
  stats := by simp [CacheStats.addReads, misses]
  stalls := by simp [misses]
  log := by simp

theorem Served.trans {f g k : FrontEnd {} icfg} {l l' : List Request} {n n' : ℕ} {st st' : BitVec 32}
    (h : Served f g l n st) (h' : Served g k l' n' st') : Served f k (l ++ l') (n + n') (st + st') := by
  have hle : f.misses l ≤ l.length + n := (f.misses_le l).trans (Nat.le_add_right _ _)
  have hle' : g.misses l' ≤ l'.length + n' := (g.misses_le l').trans (Nat.le_add_right _ _)
  constructor
  · rw [h'.contents, h.contents, blocks_append, DirectMapped.readAll_append]
  · exact h'.clean
  · rw [h'.stats, h.stats, misses_append h.contents, List.length_append,
      CacheStats.addReads_addReads _ hle hle', Nat.add_add_add_comm]
  · rw [h'.stalls, h.stalls, misses_append h.contents, Nat.add_mul, BitVec.ofNat_add]
  · rw [h'.log, h.log, List.append_assoc]

/-- first-time requests, and replays of a word that is resident behind them -/
theorem Fetched.served {f g : FrontEnd {} icfg} {l : List Request} {n : ℕ} {pc st : BitVec 32}
    (h : Fetched f g (l ++ List.replicate n ⟨pc, true⟩) st) (hl : ∀ r ∈ l, r.replay = false)
    (hres : 0 < n → DirectMapped.Resident icfg.idx
      (DirectMapped.readAll icfg.idx f.icache.contents (blocks l)) (block pc)) : Served f g l n st := by
  have hrep : blocks (List.replicate n ⟨pc, true⟩) = List.replicate n (block pc) := by simp [blocks]
  have hread : DirectMapped.readAll icfg.idx f.icache.contents (blocks (l ++ List.replicate n ⟨pc, true⟩)) =
      DirectMapped.readAll icfg.idx f.icache.contents (blocks l) := by
    rw [blocks_append, DirectMapped.readAll_append, hrep]
    cases n with
    | zero => rfl
    | succ n => exact DirectMapped.readAll_replicate (hres (by omega)) _
  have hmiss : f.misses (l ++ List.replicate n ⟨pc, true⟩) = f.misses l := by
    unfold misses
    rw [blocks_append, DirectMapped.misses_append, hrep]
    cases n with
    | zero => rfl
    | succ n => rw [DirectMapped.misses_replicate (hres (by omega)), Nat.add_zero]
  constructor
  · rw [h.contents, hread]
  · exact h.clean
  · rw [h.stats, hmiss, List.length_append, List.length_replicate]
  · rw [h.stalls, hmiss]
  · have hfresh : firstTime l = l := List.filter_eq_self.2 fun r hr => by simp [hl r hr]
    have hnone : firstTime (List.replicate n ⟨pc, true⟩) = [] := by simp [firstTime]
    rw [h.log]
    unfold firstTime at *
    rw [List.filter_append, List.filter_append, hfresh, hnone, List.append_nil]

theorem Served.congr {f g k : FrontEnd {} icfg} {l : List Request} {n : ℕ} {st : BitVec 32} (h : Served f g l n st)
    (hi : k.icache = g.icache) (hr : k.ifetch.requests = g.ifetch.requests) : Served f k l n st := by
  constructor
  · rw [hi]; exact h.contents
  · rw [hi]; exact h.clean
  · rw [hi]; exact h.stats
  · exact h.stalls
  · rw [hr]; exact h.log

/-! ## The lead of the fetch pointer -/

/-- the pointer is j words ahead of `pc`, and the word behind it is resident -/
structure Lead (f : FrontEnd {} icfg) (pc : BitVec 32) (j : ℕ) : Prop where
  clean : DirectMapped.Clean f.icache.contents
  next : icfg.enabled = true → f.ifetch.nextSequentialPc.toNat = pc.toNat + 4 * j
  held : icfg.enabled = true → 0 < j →
    DirectMapped.Resident icfg.idx f.icache.contents (block f.ifetch.nextSequentialPc - 1)

/-- the word at `pc + 4 t` -/
structure Ahead (pc target : BitVec 32) (t : ℕ) : Prop where
  aligned : Aligned pc
  eq : target.toNat = pc.toNat + 4 * t
  below : target.toNat + 4 < 2 ^ 32

theorem Ahead.aligned_target {pc target : BitVec 32} {t : ℕ} (h : Ahead pc target t) : Aligned target := by
  have := h.aligned
  unfold Aligned at *
  rw [h.eq]
  omega

/-- a step of the pointer is a step of the address -/
theorem Ahead.of_add {pc : BitVec 32} {t : ℕ} (ha : Aligned pc) (h : pc.toNat + 4 * t + 4 < 2 ^ 32) :
    Ahead pc (pc + BitVec.ofNat 32 (4 * t)) t := by
  have hlt : (BitVec.ofNat 32 (4 * t)).toNat = 4 * t := by rw [BitVec.toNat_ofNat]; omega
  have hsum : (pc + BitVec.ofNat 32 (4 * t)).toNat = pc.toNat + 4 * t := by
    rw [toNat_add_of_lt (by rw [hlt]; omega), hlt]
  exact ⟨ha, hsum, by rw [hsum]; omega⟩

variable {f g : FrontEnd {} icfg} {pc target s : BitVec 32} {j t : ℕ}

/-- an enabled fetch stream has one lead -/
theorem Lead.unique {i : ℕ} (hen : icfg.enabled = true) (h : Lead f pc i) (h' : Lead f pc j) : i = j := by
  have hnext := h.next hen
  have hnext' := h'.next hen
  omega

theorem Lead.passable (h : Lead f pc j) (ha : Ahead pc target t) : f.Passable target := by
  refine ⟨ha.aligned_target, ha.below, fun hen => ?_⟩
  have := ha.aligned
  unfold Aligned at *
  rw [h.next hen]
  omega

/-- the first-time requests of a call, from the lead -/
theorem Lead.firsts_eq (h : Lead f pc j) (ha : Ahead pc target t) :
    f.firsts target = icfg.fetches f.ifetch.nextSequentialPc (t + 1 - j) := by
  unfold firsts CacheConfig.fetches
  split_ifs with hen
  · rw [through_eq_sweep ((h.passable ha).next hen) ha.aligned_target, ha.eq, h.next hen]
    congr 1
    omega
  · rfl

/-- the word behind the pointer after a call -/
theorem Lead.held_after (h : Lead f pc j) (ha : Ahead pc target t) (hen : icfg.enabled = true)
    (hcon : g.icache.contents = DirectMapped.readAll icfg.idx f.icache.contents
      (blocks (icfg.fetches f.ifetch.nextSequentialPc (t + 1 - j))))
    (hnext : g.ifetch.nextSequentialPc.toNat = pc.toNat + 4 * max j (t + 1)) (hpos : 0 < max j (t + 1)) :
    DirectMapped.Resident icfg.idx g.icache.contents (block g.ifetch.nextSequentialPc - 1) := by
  have hf := h.next hen
  by_cases hle : j < t + 1
  · -- the sweep is not empty, and its last word is behind the pointer
    obtain ⟨m, hm⟩ : ∃ m, t + 1 - j = m + 1 := ⟨t - j, by omega⟩
    have hlast : sweep f.ifetch.nextSequentialPc (m + 1) = sweep f.ifetch.nextSequentialPc m ++
        [⟨f.ifetch.nextSequentialPc + BitVec.ofNat 32 (4 * m), false⟩] := sweep_append _ m 1
    have hbelow := ha.below
    have htarget := ha.eq
    have hadd : (f.ifetch.nextSequentialPc + BitVec.ofNat 32 (4 * m)).toNat = pc.toNat + 4 * t := by
      have hlt : (BitVec.ofNat 32 (4 * m)).toNat = 4 * m := by rw [BitVec.toNat_ofNat]; omega
      rw [toNat_add_of_lt (by rw [hlt, hf]; omega), hlt, hf]
      omega
    have hblock : block g.ifetch.nextSequentialPc - 1 =
        block (f.ifetch.nextSequentialPc + BitVec.ofNat 32 (4 * m)) := by
      unfold block
      rw [hnext, hadd]
      omega
    rw [hcon, hblock, CacheConfig.fetches, if_pos hen, hm, hlast, blocks_append]
    exact DirectMapped.resident_readAll_last _ _ _
  · have hnone : icfg.fetches f.ifetch.nextSequentialPc (t + 1 - j) = [] := by
      rw [show t + 1 - j = 0 by omega, CacheConfig.fetches_zero]
    have hsame : block g.ifetch.nextSequentialPc = block f.ifetch.nextSequentialPc := by
      unfold block
      rw [hnext, hf, max_eq_left (by omega)]
    rw [hcon, hnone, hsame]
    exact h.held hen (by omega)

theorem Lead.nextFrom_toNat (h : Lead f pc j) (ha : Ahead pc target t) (hen : icfg.enabled = true) :
    (f.nextFrom target).toNat = pc.toNat + 4 * max j (t + 1) := by
  have hf := h.next hen
  have ht := ha.eq
  have hbelow := ha.below
  have h4 : (target + 4).toNat = target.toNat + 4 := toNat_add_of_lt (by simpa using hbelow)
  unfold nextFrom nextAfter
  rw [if_pos hen]
  split_ifs with hle
  · rw [BitVec.le_def] at hle
    rw [h4]
    omega
  · rw [BitVec.le_def] at hle
    omega

/-- a call without replays -/
theorem Lead.fetched_served (h : Lead f pc j) (ha : Ahead pc target t) (hf : Fetched f g (f.firsts target) s) :
    Served f g (icfg.fetches f.ifetch.nextSequentialPc (t + 1 - j)) 0 s := by
  rw [h.firsts_eq ha] at hf
  have hf' : Fetched f g (icfg.fetches f.ifetch.nextSequentialPc (t + 1 - j) ++ List.replicate 0 ⟨pc, true⟩) s := by
    simpa using hf
  exact hf'.served (icfg.fetches_fresh _ _) (by simp)

/-! ## The stages -/

/-- a front-end call from lead j through the word `pc + 4 t` -/
theorem Lead.ensureThrough (h : Lead f pc j) (ha : Ahead pc target t) : ∃ s g,
    ensureThrough target f = .ok s g ∧ Served f g (icfg.fetches f.ifetch.nextSequentialPc (t + 1 - j)) 0 s ∧
      Lead g pc (max j (t + 1)) := by
  obtain ⟨s, g, hok, hf, hn⟩ := ensureThrough_performs (h.passable ha) h.clean
  have hserved := (h.fetched_served ha hf)
  have hnext : icfg.enabled = true → g.ifetch.nextSequentialPc.toNat = pc.toNat + 4 * max j (t + 1) := fun hen => by
    rw [hn, h.nextFrom_toNat ha hen]
  exact ⟨s, g, hok, hserved, hf.clean, hnext, fun hen hpos =>
    h.held_after ha hen hserved.contents (hnext hen) hpos⟩

/-- first-time requests through `pc + 4 t`, then n replays of that word -/
theorem Lead.replays {m : FetchM {} icfg (BitVec 32)} {n : ℕ} (h : Lead f pc j) (ha : Ahead pc target t)
    (hj : j ≤ t + 1) (hen : icfg.enabled = true)
    (hm : Performs m f (f.firsts target ++ FrontEnd.replays icfg n target) (f.nextFrom target)) :
    ∃ s g, m f = .ok s g ∧ Served f g (icfg.fetches f.ifetch.nextSequentialPc (t + 1 - j)) n s ∧
      Lead g pc (t + 1) := by
  obtain ⟨s, g, hok, hf, hn⟩ := hm
  have hnext := h.nextFrom_toNat ha hen
  rw [max_eq_right hj] at hnext
  rw [h.firsts_eq ha, FrontEnd.replays, if_pos hen] at hf
  -- the contents behind the sweep, where the held word is resident
  obtain ⟨s', g', hok', hserved', hlead'⟩ := h.ensureThrough ha
  have hheld : DirectMapped.Resident icfg.idx (DirectMapped.readAll icfg.idx f.icache.contents
      (blocks (icfg.fetches f.ifetch.nextSequentialPc (t + 1 - j)))) (block target) := by
    have hres := hlead'.held hen (by omega)
    have hblock : block g'.ifetch.nextSequentialPc - 1 = block target := by
      unfold block
      rw [hlead'.next hen, ha.eq]
      omega
    rwa [hserved'.contents, hblock] at hres
  have hserved := hf.served (icfg.fetches_fresh _ _) fun _ => hheld
  refine ⟨s, g, hok, hserved, hf.clean, fun _ => by rw [hn, hnext], fun _ _ => ?_⟩
  have hblock : block g.ifetch.nextSequentialPc - 1 = block target := by
    unfold block
    rw [hn, hnext, ha.eq]
    omega
  rw [hserved.contents, hblock]
  exact hheld

/-- the look-ahead of a D-cache stall -/
theorem Lead.onDcacheStall (h : Lead f pc j) (ha : Ahead pc (pc + 12) 3) (hj : j ≤ 4) (d : BitVec 32) : ∃ s g,
    onDcacheStall pc d f = .ok s g ∧
      Served f g (icfg.fetches f.ifetch.nextSequentialPc (if d = 0 then 0 else 4 - j))
        (if icfg.enabled then d.toNat else 0) s ∧
      Lead g pc (if d = 0 then j else 4) := by
  by_cases hd : d = 0
  · subst hd
    refine ⟨0, f, onDcacheStall_zero pc f, ?_, by simpa using h⟩
    simpa using Served.refl h.clean
  · rw [if_neg hd, if_neg hd]
    cases hen : icfg.enabled with
    | false =>
      refine ⟨0, f, by simp [FrontEnd.onDcacheStall, hen], ?_, h.clean, by simp [hen], by simp [hen]⟩
      simpa [CacheConfig.fetches, hen] using Served.refl h.clean
    | true => exact h.replays ha hj hen (onDcacheStall_performs hd (h.passable ha) h.clean)

/-- the redirect of a taken branch or a jump: its wrong path, then the target -/
theorem Lead.redirect (h : Lead f pc j) (ha : Ahead pc (pc + 8) 2) (nextPc : BitVec 32) : ∃ s g,
    FrontEnd.redirect 8 pc nextPc f = .ok s g ∧
      Served f g (icfg.fetches f.ifetch.nextSequentialPc (3 - j)) 0 s ∧ Lead g nextPc 0 := by
  obtain ⟨s, g, hok, hf, hn⟩ := redirect_performs (h.passable ha) h.clean nextPc
  refine ⟨s, g, hok, h.fetched_served ha hf, hf.clean, fun _ => by rw [hn]; rfl, ?_⟩
  intro _ h0
  omega

theorem Lead.onSystemDrain (h : Lead f pc j) (ha : Ahead pc (pc + 8) 2) (hj : j ≤ 3) : ∃ s g,
    onSystemDrain pc f = .ok s g ∧
      Served f g (icfg.fetches f.ifetch.nextSequentialPc (3 - j)) (if icfg.enabled then 2 else 0) s ∧
      Lead g pc 3 := by
  cases hen : icfg.enabled with
  | false =>
    refine ⟨0, f, by simp [FrontEnd.onSystemDrain, hen], ?_, h.clean, by simp [hen], by simp [hen]⟩
    simpa [CacheConfig.fetches, hen] using Served.refl h.clean
  | true => exact h.replays ha hj hen (onSystemDrain_performs (h.passable ha) h.clean)

/-- the lead over the next sequential pc -/
theorem Lead.advance (h : Lead f pc (j + 1)) (hb : pc.toNat + 4 < 2 ^ 32) : Lead f (pc + 4) j := by
  have h4 : (pc + 4).toNat = pc.toNat + 4 := toNat_add_of_lt (by simpa using hb)
  refine ⟨h.clean, fun hen => ?_, fun hen _ => h.held hen (by omega)⟩
  rw [h.next hen, h4]
  omega

/-- two stages make one sweep -/
theorem Lead.sweep_trans {k : FrontEnd {} icfg} {n m r r' : ℕ} {s s' : BitVec 32} (h : Lead f pc j)
    (hs : Served f g (icfg.fetches f.ifetch.nextSequentialPc n) r s) (hg : Lead g pc (j + n))
    (hs' : Served g k (icfg.fetches g.ifetch.nextSequentialPc m) r' s') (hb : pc.toNat + 4 * (j + n) < 2 ^ 32) :
    Served f k (icfg.fetches f.ifetch.nextSequentialPc (n + m)) (r + r') (s + s') := by
  have happend := icfg.fetches_append f.ifetch.nextSequentialPc n m
  cases hen : icfg.enabled with
  | false =>
    have hnone : ∀ p q, icfg.fetches p q = [] := fun p q => by simp [CacheConfig.fetches, hen]
    rw [hnone] at hs hs' ⊢
    simpa using hs.trans hs'
  | true =>
    have hf := h.next hen
    have hlt : (BitVec.ofNat 32 (4 * n)).toNat = 4 * n := by rw [BitVec.toNat_ofNat]; omega
    have hnext : g.ifetch.nextSequentialPc = f.ifetch.nextSequentialPc + BitVec.ofNat 32 (4 * n) := by
      refine BitVec.eq_of_toNat_eq ?_
      rw [hg.next hen, toNat_add_of_lt (by rw [hlt, hf]; omega), hlt, hf]
      omega
    rw [happend, ← hnext]
    exact hs.trans hs'

end FrontEnd

/-! ## The whole instruction -/

namespace Kind

/-- the number of first-time requests of an instruction from lead j with D-cache stall `d` -/
def span (k : Kind) (j : ℕ) (d : BitVec 32) : ℕ :=
  (1 - j) + (if d = 0 then 0 else 4 - max j 1) + (if k.redirects then 3 - max j 1 else 0)

/-- the number of its replays -/
def holds (k : Kind) (icfg : CacheConfig) (d : BitVec 32) : ℕ :=
  if icfg.enabled then d.toNat + (if k = .system then 2 else 0) else 0

/-- the lead it leaves to the next instruction -/
def leadAfter (k : Kind) (j : ℕ) (d : BitVec 32) : ℕ :=
  if k.jumps then 0 else if k = .system then 2 else if d = 0 then max j 1 - 1 else 3

theorem span_le (k : Kind) {j : ℕ} (d : BitVec 32) (h : d ≠ 0 → k.redirects = false) : k.span j d ≤ 4 := by
  unfold span
  split_ifs with hd hk hk
  · omega
  · omega
  · rw [h hd] at hk
    cases hk
  · omega

/-- the sweep of an instruction: itself, two words behind a redirect, and what the lead gains -/
theorem span_lead (k : Kind) {j : ℕ} (hj : j ≤ 3) {d : BitVec 32} (h : d ≠ 0 → k.redirects = false) :
    k.span j d + j = 1 + 2 * (if k.jumps then 1 else 0) + k.leadAfter j d := by
  unfold span leadAfter
  by_cases hjumps : k.jumps = true
  · have hr : k.redirects = true := by simp [redirects, hjumps]
    have hd : d = 0 := by
      by_contra hd
      rw [h hd] at hr
      cases hr
    rw [if_pos hr, if_pos hjumps, if_pos hjumps, if_pos hd]
    omega
  · by_cases hsys : k = .system
    · have hr : k.redirects = true := by simp [redirects, hsys]
      have hd : d = 0 := by
        by_contra hd
        rw [h hd] at hr
        cases hr
      rw [if_pos hr, if_neg hjumps, if_neg hjumps, if_pos hsys, if_pos hd]
      omega
    · have hr : ¬ k.redirects = true := by simp [redirects, hjumps, hsys]
      rw [if_neg hr, if_neg hjumps, if_neg hjumps, if_neg hsys]
      split_ifs <;> omega

theorem leadAfter_le (k : Kind) {j : ℕ} (hj : j ≤ 3) (d : BitVec 32) : k.leadAfter j d ≤ 3 := by
  unfold leadAfter
  split_ifs <;> omega

end Kind

namespace Caches

open FrontEnd

variable {cfg : CpuConfig} {c c' : Caches cfg} {k : Kind} {pc nextPc st : BitVec 32}
  {look : Except Exn (Option (BitVec 32))} {j : ℕ}

/-- a D-cache stall belongs to a load or a store -/
theorem redirects_of_dstall (c : Caches cfg) (k : Kind) (h : c.dstall k ≠ 0) : k.redirects = false := by
  cases hr : k.redirects with
  | false => rfl
  | true =>
    have hm := Kind.mem_of_redirects hr
    simp [dstall, daccess, hm] at h

/-- the pc of an instruction that lies below the last four words of the address space -/
structure Placed (pc : BitVec 32) : Prop where
  aligned : Aligned pc
  below : pc.toNat + 20 ≤ 2 ^ 32

theorem Placed.ahead (h : Placed pc) {t : ℕ} (ht : t ≤ 3) : Ahead pc (pc + BitVec.ofNat 32 (4 * t)) t :=
  Ahead.of_add h.aligned (by have := h.below; omega)

theorem Placed.ahead_self (h : Placed pc) : Ahead pc pc 0 :=
  ⟨h.aligned, rfl, by have := h.below; omega⟩

/-- the demand fetch -/
theorem Charged.demand_served (w : Charged c k pc nextPc look st c') (h : Lead c.frontEnd pc j) (hp : Placed pc) :
    Served c.frontEnd w.f₁ (cfg.icache.fetches c.ifetch.nextSequentialPc (1 - j)) 0 w.s₁ ∧ Lead w.f₁ pc (max j 1) := by
  obtain ⟨s, g, hok, hs, hl⟩ := h.ensureThrough hp.ahead_self
  obtain ⟨rfl, rfl⟩ := Outcome.ok.inj (w.demand.symm.trans hok)
  exact ⟨hs, hl⟩

/-- the look-ahead behind the D-cache stall -/
theorem Charged.ahead_served (w : Charged c k pc nextPc look st c') (h : Lead w.f₁ pc j) (hj : j ≤ 4) (hp : Placed pc) :
    Served w.f₁ w.f₂ (cfg.icache.fetches w.f₁.ifetch.nextSequentialPc (if c.dstall k = 0 then 0 else 4 - j))
      (if cfg.icache.enabled then (c.dstall k).toNat else 0) w.s₂ ∧
      Lead w.f₂ pc (if c.dstall k = 0 then j else 4) := by
  obtain ⟨s, g, hok, hs, hl⟩ := h.onDcacheStall (hp.ahead (t := 3) (by omega)) hj (c.dstall k)
  obtain ⟨rfl, rfl⟩ := Outcome.ok.inj (w.ahead.symm.trans hok)
  exact ⟨hs, hl⟩

/-- the number of replays of a drain -/
def drains (icfg : CacheConfig) (k : Kind) : ℕ := if icfg.enabled then (if k = .system then 2 else 0) else 0

/-- the redirect or drain call of an instruction -/
theorem control_ok {icfg : CacheConfig} {f : FrontEnd {} icfg} (h : Lead f pc j) (hj : k.redirects = true → j ≤ 3)
    (hp : Placed pc) (nextPc : BitVec 32) : ∃ s g, controlCall icfg k pc nextPc f = .ok s g ∧
      Served f g (icfg.fetches f.ifetch.nextSequentialPc (if k.redirects then 3 - j else 0)) (drains icfg k) s ∧
      (if k.jumps then Lead g nextPc 0 else Lead g pc (if k = .system then 3 else j)) := by
  have h8 : Ahead pc (pc + 8) 2 := hp.ahead (t := 2) (by omega)
  have hnone : Served f f (icfg.fetches f.ifetch.nextSequentialPc 0) 0 0 := by
    rw [CacheConfig.fetches_zero]
    exact Served.refl h.clean
  have hjump := h.redirect h8 nextPc
  cases k with
  | branch taken =>
    cases taken with
    | true =>
      obtain ⟨s, g, hok, hs, hl⟩ := hjump
      exact ⟨s, g, hok, by simpa [Kind.redirects, Kind.jumps, drains] using hs, hl⟩
    | false => exact ⟨0, f, rfl, by simpa [Kind.redirects, Kind.jumps, drains] using hnone, h⟩
  | jump =>
    obtain ⟨s, g, hok, hs, hl⟩ := hjump
    exact ⟨s, g, hok, by simpa [Kind.redirects, Kind.jumps, drains] using hs, hl⟩
  | system =>
    obtain ⟨s, g, hok, hs, hl⟩ := h.onSystemDrain h8 (hj rfl)
    exact ⟨s, g, hok, by simpa [Kind.redirects, Kind.jumps, drains] using hs, hl⟩
  | _ => exact ⟨0, f, rfl, by simpa [Kind.redirects, Kind.jumps, drains] using hnone, h⟩

/-- the lead behind the look-ahead, where a redirect or drain starts -/
theorem lead_le_of_redirects (c : Caches cfg) (hj : j ≤ 3) :
    k.redirects = true → (if c.dstall k = 0 then max j 1 else 4) ≤ 3 := by
  intro hr
  have hd : c.dstall k = 0 := by
    by_contra hd
    rw [redirects_of_dstall c k hd] at hr
    cases hr
  rw [if_pos hd]
  omega

/-- **The fetch stream of one instruction**: one sweep of `span` first-time requests from the pointer, replays that
hit, and a lead of at most three words over the next pc. -/
theorem Charged.serve (w : Charged c k pc nextPc look st c') (h : Lead c.frontEnd pc j) (hj : j ≤ 3) (hp : Placed pc)
    (hseq : k.jumps = false → nextPc = pc + 4) :
    Served c.frontEnd c'.frontEnd (cfg.icache.fetches c.ifetch.nextSequentialPc (k.span j (c.dstall k)))
      (k.holds cfg.icache (c.dstall k)) (w.s₁ + w.s₂ + w.s₃) ∧
      Lead c'.frontEnd nextPc (k.leadAfter j (c.dstall k)) := by
  have hbelow := hp.below
  have hle := lead_le_of_redirects (k := k) c hj
  obtain ⟨hs₁, hl₁⟩ := w.demand_served h hp
  obtain ⟨hs₂, hl₂⟩ := w.ahead_served hl₁ (by omega) hp
  obtain ⟨s, g, hok, hs₃, hl₃⟩ := control_ok hl₂ hle hp nextPc
  obtain ⟨rfl, rfl⟩ := Outcome.ok.inj (hok.symm.trans w.control)
  rw [w.front]
  refine ⟨?_, ?_⟩
  · have hl₁' : Lead w.f₁ pc (j + (1 - j)) := by rwa [show j + (1 - j) = max j 1 by omega]
    have hl₂' : Lead w.f₂ pc (j + (1 - j + if c.dstall k = 0 then 0 else 4 - max j 1)) := by
      rwa [show j + (1 - j + if c.dstall k = 0 then 0 else 4 - max j 1) = if c.dstall k = 0 then max j 1 else 4 by
        split_ifs <;> omega]
    have hboth := h.sweep_trans hs₁ hl₁' hs₂ (by omega)
    have hall := h.sweep_trans hboth hl₂' hs₃ (by split_ifs <;> omega)
    have hcount : (if k.redirects then 3 - (if c.dstall k = 0 then max j 1 else 4) else 0) =
        if k.redirects then 3 - max j 1 else 0 := by
      split_ifs with hr hd
      · rfl
      · have := hle hr
        rw [if_neg hd] at this
        omega
      · rfl
    have hholds : 0 + (if cfg.icache.enabled then (c.dstall k).toNat else 0) + drains cfg.icache k =
        k.holds cfg.icache (c.dstall k) := by
      unfold drains Kind.holds
      split_ifs <;> omega
    rw [hcount, hholds] at hall
    exact hall
  · unfold Kind.leadAfter
    by_cases hk : k.jumps = true
    · rw [if_pos hk] at hl₃ ⊢
      exact hl₃
    · rw [if_neg hk] at hl₃ ⊢
      have hadv : Lead w.f₃ (pc + 4) (if k = .system then 2 else if c.dstall k = 0 then max j 1 - 1 else 3) := by
        refine FrontEnd.Lead.advance ?_ (by omega)
        by_cases hsys : k = .system
        · rw [if_pos hsys] at hl₃ ⊢
          exact hl₃
        · rw [if_neg hsys] at hl₃ ⊢
          rwa [show (if c.dstall k = 0 then max j 1 - 1 else 3) + 1 = if c.dstall k = 0 then max j 1 else 4 by
            split_ifs <;> omega]
      rwa [← hseq (by simpa using hk)] at hadv

/-- **The cache side returns** below the last four words of the address space, unless the overlap rule finds a fault. -/
theorem charge_returns (h : Lead c.frontEnd pc j) (hj : j ≤ 3) (hp : Placed pc) (nextPc : BitVec 32)
    (hq : ∀ e, look = .error e → k.stores = false) : ∃ st c', charge k pc nextPc look c = .ok st c' := by
  obtain ⟨s₁, f₁, hdemand, -, hl₁⟩ := h.ensureThrough hp.ahead_self
  obtain ⟨s₂, f₂, hahead, -, hl₂⟩ := hl₁.onDcacheStall (hp.ahead (t := 3) (by omega)) (by omega) (c.dstall k)
  obtain ⟨s₃, f₃, hcontrol, -, -⟩ := control_ok hl₂ (lead_le_of_redirects (k := k) c hj) hp nextPc
  have hquiet : lookFault k look (c.dstall k) s₂ = none := by
    unfold lookFault
    split
    · rename_i a e
      cases hq e rfl
    · rfl
  exact ⟨_, _, charge_ok.2 ⟨⟨s₁, s₂, s₃, _, f₁, f₂, f₃, hdemand, hahead, hquiet, rfl, hcontrol, rfl, rfl⟩⟩⟩

end Caches

end Rv32im
