/-
Held-PC replays always hit.

Behind a D-cache stall and behind a SYSTEM instruction the fetch stream presents one word again and again. That word is
the last one the stream touched: the pointer never passes it before the call, so the look-ahead of the call ends with
it, or has ended with it earlier and requested nothing since.

- `Answered`: the I-cache has made exactly the accesses of a list of requests, and every replay among them was a hit.
- `Lead.replayed`: a look-ahead to the held word, then n replays. The stall is that of the look-ahead alone.
- `Stepped.answered`: the requests of one instruction are answered so.
- `replays_hit`: the statement for every reachable state.
-/
import Rv32im.Results.CacheHistory
import Rv32im.Results.Credit

namespace Rv32im

namespace DirectMappedCacheModel

variable {config : CacheConfig}

theorem accessAll_append (c : DirectMappedCacheModel config) (l l' : List (BitVec 32 × Bool)) :
    c.accessAll (l ++ l') = (c.accessAll l).accessAll l' := List.foldl_append

theorem reports_append (c : DirectMappedCacheModel config) (l l' : List (BitVec 32 × Bool)) :
    c.reports (l ++ l') = c.reports l ++ (c.accessAll l).reports l' := by
  induction l generalizing c with
  | nil => rfl
  | cons x l ih =>
    rw [List.cons_append, reports, ih]
    rfl

/-- reading a resident word hits, and keeps it resident -/
theorem read_of_resident (hen : config.enabled = true) {c : DirectMappedCacheModel config} {a : BitVec 32}
    (h : DirectMapped.Resident config.idx c.contents (block a)) :
    (c.access a false).1 = { hit := true } ∧ DirectMapped.Resident config.idx (c.access a false).2.contents (block a) := by
  refine ⟨?_, ?_⟩
  · rw [access_fst hen, DirectMapped.result_hit.2 h]
    rfl
  · rw [access_contents hen]
    exact DirectMapped.resident_access_self _ _ _

end DirectMappedCacheModel

namespace FrontEnd

open DirectMappedCacheModel

variable {icfg : CacheConfig} {f g k : FrontEnd {} icfg} {pc held x st : BitVec 32} {j t : ℕ}

/-! ## Requests and their reports -/

/-- the accesses that requests make -/
def accesses (l : List Request) : List (BitVec 32 × Bool) := l.map fun r => (r.pc, false)

/-- a replay hits without a stall -/
def HitsIfReplay (r : Request) (a : CacheAccessResult) : Prop := r.replay = true → a = { hit := true }

/-- `g` is `f` after the requests `l`, and the replays among them hit -/
structure Answered (f g : FrontEnd {} icfg) (l : List Request) : Prop where
  requests : g.ifetch.requests = f.ifetch.requests ++ l
  icache : g.icache = f.icache.accessAll (accesses l)
  replays : List.Forall₂ HitsIfReplay l (f.icache.reports (accesses l))

theorem Answered.refl (f : FrontEnd {} icfg) : Answered f f [] := ⟨(List.append_nil _).symm, rfl, .nil⟩

theorem Answered.trans {l l' : List Request} (h : Answered f g l) (h' : Answered g k l') : Answered f k (l ++ l') := by
  have hmap : accesses (l ++ l') = accesses l ++ accesses l' := List.map_append
  refine ⟨?_, ?_, ?_⟩
  · rw [h'.requests, h.requests, List.append_assoc]
  · rw [h'.icache, h.icache, hmap, accessAll_append]
  · rw [hmap, reports_append, ← h.icache]
    exact List.rel_append h.replays h'.replays

/-- moving the pointer answers nothing -/
theorem Answered.congr {l : List Request} (h : Answered f g l) (hi : k.icache = g.icache)
    (hr : k.ifetch.requests = g.ifetch.requests) : Answered f k l :=
  ⟨hr.trans h.requests, hi.trans h.icache, h.replays⟩

/-- one request; a replay is of a resident word -/
theorem issue_answered (hen : icfg.enabled = true) (f : FrontEnd {} icfg) (pc : BitVec 32) (replay lookahead : Bool)
    (h : replay = true → DirectMapped.Resident icfg.idx f.icache.contents (block pc)) :
    ∃ g, issue pc replay lookahead f = .ok (f.icache.access pc false).1 g ∧ Answered f g [⟨pc, replay⟩] := by
  refine ⟨_, rfl, ?_, rfl, .cons ?_ .nil⟩
  · rw [if_pos hen]
    rfl
  · intro hr
    exact (read_of_resident hen (h hr)).1

/-- one turn of the loop of `ensure_through` is one first-time request -/
theorem ensureLoop_answers (hen : icfg.enabled = true) {target : BitVec 32}
    (hle : f.ifetch.nextSequentialPc ≤ target) (fuel : ℕ) (st : BitVec 32) :
    ∃ k, ensureLoop target (fuel + 1) st f =
        ensureLoop target fuel (st + (f.icache.access f.ifetch.nextSequentialPc false).1.stallCycles) k ∧
      k.ifetch.nextSequentialPc = f.ifetch.nextSequentialPc + 4 ∧ Answered f k [⟨f.ifetch.nextSequentialPc, false⟩] := by
  obtain ⟨k, hissue, hk⟩ := issue_answered hen f f.ifetch.nextSequentialPc false (f.ifetch.nextSequentialPc ≠ target)
    nofun
  exact ⟨_, ensureLoop_turn hle hissue fuel st, rfl, hk.congr rfl rfl⟩

/-- the loop issues no replay, by induction on the fuel -/
theorem ensureLoop_answered (hen : icfg.enabled = true) (target : BitVec 32) (fuel : ℕ)
    (hok : ensureLoop target fuel st f = .ok x g) : ∃ l, Answered f g l := by
  induction fuel generalizing f st with
  | zero => cases hok
  | succ fuel ih =>
    by_cases hle : f.ifetch.nextSequentialPc ≤ target
    · obtain ⟨k, hturn, -, hk⟩ := ensureLoop_answers hen hle fuel st
      rw [hturn] at hok
      obtain ⟨l, hl⟩ := ih hok
      exact ⟨_, hk.trans hl⟩
    · rw [ensureLoop_end hle] at hok
      cases hok
      exact ⟨[], .refl _⟩

theorem ensureThrough_answered (hen : icfg.enabled = true) {target : BitVec 32}
    (hok : ensureThrough target f = .ok x g) : ∃ l, Answered f g l := by
  simp only [ensureThrough, hen, Bool.not_true, Bool.false_eq_true, if_false] at hok
  obtain ⟨_, k, hthrow, hloop⟩ := Exec.bind_ok.1 hok
  obtain ⟨-, rfl⟩ := Exec.throwIf_ok.1 hthrow
  exact ensureLoop_answered hen target _ hloop

/-- **Replays of a resident word** hit and add no stall, by induction on their number. -/
theorem replayLoop_hits (hen : icfg.enabled = true) (pc : BitVec 32) (lookahead : Bool) (n : ℕ)
    (h : DirectMapped.Resident icfg.idx f.icache.contents (block pc)) (st : BitVec 32) :
    ∃ g, replayLoop pc lookahead n st f = .ok st g ∧ Answered f g (List.replicate n ⟨pc, true⟩) ∧
      f.icache.reports (accesses (List.replicate n ⟨pc, true⟩)) = List.replicate n { hit := true } := by
  induction n generalizing f with
  | zero => exact ⟨f, rfl, .refl f, rfl⟩
  | succ n ih =>
    obtain ⟨hhit, hres⟩ := read_of_resident hen h
    obtain ⟨k, hissue, hk⟩ := issue_answered hen f pc true lookahead fun _ => h
    have hicache : k.icache = (f.icache.access pc false).2 := hk.icache
    rw [← hicache] at hres
    obtain ⟨g, hloop, hg, hreports⟩ := ih hres
    refine ⟨g, ?_, hk.trans hg, ?_⟩
    · rw [replayLoop, Exec.bind_apply, hissue, Exec.andThen_ok, hhit]
      simpa using hloop
    · rw [List.replicate_succ, List.replicate_succ, ← hreports, hicache, ← hhit]
      rfl

/-! ## Calls that hold a PC -/

/-- the call runs ahead to `held` and presents it n times more. Its stall is that of the run ahead, and every replay
hits without a stall. -/
def Replayed (m : FetchM {} icfg (BitVec 32)) (f : FrontEnd {} icfg) (held : BitVec 32) (n : ℕ) : Prop :=
  ∃ x g k, m f = .ok x g ∧ ensureThrough held f = .ok x k ∧
    g.ifetch.requests = k.ifetch.requests ++ List.replicate n ⟨held, true⟩ ∧
    k.icache.reports (accesses (List.replicate n ⟨held, true⟩)) = List.replicate n { hit := true }

/-- behind the run ahead, the held word is the last one touched -/
theorem Lead.resident_held (h : Lead f pc (t + 1)) (ha : Ahead pc held t) (hen : icfg.enabled = true) :
    DirectMapped.Resident icfg.idx f.icache.contents (block held) := by
  have hres := h.held hen (Nat.succ_pos t)
  have hblock : block f.ifetch.nextSequentialPc - 1 = block held := by
    unfold block
    rw [h.next hen, ha.eq]
    omega
  rwa [hblock] at hres

/-- **A run ahead from at most the held word, then replays**: the common body of the two calls. -/
theorem Lead.replayed (h : Lead f pc j) (ha : Ahead pc held t) (hj : j ≤ t + 1) (hen : icfg.enabled = true)
    (lookahead : Bool) (n : ℕ) : ∃ x k g, FrontEnd.ensureThrough held f = .ok x k ∧
      (do
        let stalls ← FrontEnd.ensureThrough held
        replayLoop held lookahead n stalls : FetchM {} icfg (BitVec 32)) f = .ok x g ∧
      (∃ l, Answered f g l) ∧ g.ifetch.requests = k.ifetch.requests ++ List.replicate n ⟨held, true⟩ ∧
      k.icache.reports (accesses (List.replicate n ⟨held, true⟩)) = List.replicate n { hit := true } := by
  obtain ⟨x, k, hok, -, hlead⟩ := h.ensureThrough ha
  rw [max_eq_right hj] at hlead
  obtain ⟨l, hl⟩ := ensureThrough_answered hen hok
  obtain ⟨g, hloop, hg, hreports⟩ := replayLoop_hits hen held lookahead n (hlead.resident_held ha hen) x
  refine ⟨x, k, g, hok, ?_, ⟨_, hl.trans hg⟩, hg.requests, hreports⟩
  rw [Exec.bind_apply, hok, Exec.andThen_ok, hloop]

theorem onDcacheStall_eq (hen : icfg.enabled = true) {d : BitVec 32} (hd : d ≠ 0) :
    (onDcacheStall pc d : FetchM {} icfg (BitVec 32)) = (do
      let stalls ← ensureThrough (pc + 12)
      replayLoop (pc + 12) false d.toNat stalls) := by
  unfold onDcacheStall
  rw [if_neg (by simpa [hen] using hd)]

theorem onSystemDrain_eq (hen : icfg.enabled = true) :
    (onSystemDrain pc : FetchM {} icfg (BitVec 32)) = (do
      let stalls ← ensureThrough (pc + 8)
      replayLoop (pc + 8) true 2 stalls) := by
  unfold onSystemDrain
  rw [hen]
  rfl

/-- the look-ahead of a D-cache stall, from a pointer at most at the held word -/
theorem Lead.dcacheStall_replayed (h : Lead f pc j) (ha : Ahead pc (pc + 12) 3) (hj : j ≤ 4)
    (hen : icfg.enabled = true) {d : BitVec 32} (hd : d ≠ 0) :
    Replayed (FrontEnd.onDcacheStall pc d) f (pc + 12) d.toNat := by
  obtain ⟨x, k, g, hthrough, hok, -, hrequests, hreports⟩ := h.replayed ha hj hen false d.toNat
  rw [← onDcacheStall_eq hen hd] at hok
  exact ⟨x, g, k, hok, hthrough, hrequests, hreports⟩

/-- the drain of a SYSTEM instruction -/
theorem Lead.systemDrain_replayed (h : Lead f pc j) (ha : Ahead pc (pc + 8) 2) (hj : j ≤ 3) (hen : icfg.enabled = true) :
    Replayed (FrontEnd.onSystemDrain pc) f (pc + 8) 2 := by
  obtain ⟨x, k, g, hthrough, hok, -, hrequests, hreports⟩ := h.replayed ha hj hen true 2
  rw [← onSystemDrain_eq hen] at hok
  exact ⟨x, g, k, hok, hthrough, hrequests, hreports⟩

/-! ## The stages of an instruction -/

theorem Lead.dcacheStall_answered (h : Lead f pc j) (ha : Ahead pc (pc + 12) 3) (hj : j ≤ 4)
    (hen : icfg.enabled = true) {d : BitVec 32} (hok : FrontEnd.onDcacheStall pc d f = .ok x g) :
    ∃ l, Answered f g l := by
  by_cases hd : d = 0
  · subst hd
    rw [onDcacheStall_zero] at hok
    cases hok
    exact ⟨[], .refl _⟩
  · obtain ⟨y, k, g', -, hok', hl, -⟩ := h.replayed ha hj hen false d.toNat
    rw [← onDcacheStall_eq hen hd, hok] at hok'
    cases hok'
    exact hl

theorem redirect_answered (hen : icfg.enabled = true) {wrong target : BitVec 32}
    (hok : redirect wrong pc target f = .ok x g) : ∃ l, Answered f g l := by
  simp only [redirect, hen, Bool.not_true, Bool.false_eq_true, if_false] at hok
  obtain ⟨f', k, hget, hrest⟩ := Exec.bind_ok.1 hok
  cases hget
  obtain ⟨y, k, hthrough, hmove⟩ := Exec.bind_ok.1 hrest
  obtain ⟨l, hl⟩ := ensureThrough_answered hen hthrough
  cases hmove
  exact ⟨l, hl.congr rfl rfl⟩

theorem Lead.controlCall_answered (h : Lead f pc j) (ha : Ahead pc (pc + 8) 2) (hen : icfg.enabled = true) {kind : Kind}
    (hj : kind.redirects = true → j ≤ 3) {nextPc : BitVec 32}
    (hok : Caches.controlCall icfg kind pc nextPc f = .ok x g) : ∃ l, Answered f g l := by
  unfold Caches.controlCall at hok
  split at hok
  · exact redirect_answered hen hok
  · exact redirect_answered hen hok
  · obtain ⟨y, k, g', -, hok', hl, -⟩ := h.replayed ha (hj rfl) hen true 2
    rw [← onSystemDrain_eq hen, hok] at hok'
    cases hok'
    exact hl
  · cases hok
    exact ⟨[], .refl _⟩

end FrontEnd

open FrontEnd Caches

/-- the requests of one instruction are answered, and its replays hit -/
theorem Caches.Charged.answered {cfg : CpuConfig} {c c' : Caches cfg} {k : Kind} {pc nextPc st : BitVec 32}
    {look : Except Exn (Option (BitVec 32))} {j : ℕ} (w : Charged c k pc nextPc look st c')
    (hen : cfg.icache.enabled = true) (h : Lead c.frontEnd pc j) (hj : j ≤ 3) (hp : Placed pc) :
    ∃ l, Answered c.frontEnd c'.frontEnd l := by
  have h12 : Ahead pc (pc + 12) 3 := hp.ahead (t := 3) (by omega)
  have h8 : Ahead pc (pc + 8) 2 := hp.ahead (t := 2) (by omega)
  obtain ⟨-, hl₁⟩ := w.demand_served h hp
  obtain ⟨-, hl₂⟩ := w.ahead_served hl₁ (by omega) hp
  obtain ⟨l₁, ha₁⟩ := ensureThrough_answered hen w.demand
  obtain ⟨l₂, ha₂⟩ := hl₁.dcacheStall_answered h12 (by omega) hen w.ahead
  obtain ⟨l₃, ha₃⟩ := hl₂.controlCall_answered h8 hen (lead_le_of_redirects (k := k) c hj) w.control
  rw [w.front]
  exact ⟨_, (ha₁.trans ha₂).trans ha₃⟩

namespace CpuModel

variable {cfg : CpuConfig} {s t : CpuModel cfg} {b : Bool}

theorem Stepped.answered (w : Stepped s b t) (hen : cfg.icache.enabled = true) (hmem : cfg.memorySize + 16 ≤ 2 ^ 32)
    (hi : s.Inv) : ∃ l, Answered s.caches.frontEnd t.caches.frontEnd l := by
  obtain ⟨j, hj, hl⟩ := hi.lead
  obtain ⟨q⟩ := w.charged
  exact q.answered hen hl hj (w.placed hi hmem)

/-- all requests of a run are answered, by induction on its steps -/
theorem answered_run (hen : cfg.icache.enabled = true) (hmem : cfg.memorySize + 16 ≤ 2 ^ 32) (h : cfg.Accepted)
    {program data : ℕ → BitVec 8} {pc : BitVec 32} {n : ℕ}
    (ht : Exec.iter step n (boot cfg h program data pc) = some t) :
    Answered (boot cfg h program data pc).caches.frontEnd t.caches.frontEnd t.ifetch.requests := by
  have hboth : t.Inv ∧ ∃ l, Answered (boot cfg h program data pc).caches.frontEnd t.caches.frontEnd l := by
    apply run_inv _ ht ⟨inv_boot h program data pc, [], .refl _⟩
    intro s t b w ⟨hi, l, hl⟩
    obtain ⟨l', hl'⟩ := w.answered hen hmem hi
    exact ⟨w.inv hi hmem, _, hl.trans hl'⟩
  obtain ⟨-, l, hl⟩ := hboth
  -- no request precedes the run
  have hall : t.ifetch.requests = l := hl.requests
  rw [hall]
  exact hl

/-- the pointer at the start of a step -/
theorem Inv.pointer (h : s.Inv) (hen : cfg.icache.enabled = true) :
    s.ifetch.nextSequentialPc ∈ [s.pc, s.pc + 4, s.pc + 8, s.pc + 12] := by
  obtain ⟨j, hj, hl⟩ := h.lead
  have hnext : s.ifetch.nextSequentialPc.toNat = s.pc.toNat + 4 * j := hl.next hen
  have heq : s.ifetch.nextSequentialPc = s.pc + BitVec.ofNat 32 (4 * j) := by
    apply BitVec.eq_of_toNat_eq
    have hlt := s.ifetch.nextSequentialPc.isLt
    rw [BitVec.toNat_add, BitVec.toNat_ofNat]
    omega
  rw [heq]
  interval_cases j <;> simp

end CpuModel

/-- **Held-PC replays always hit.** In every reachable state the fetch pointer is at most three words ahead of the pc.
The I-cache has made exactly the accesses of the requests so far, and each replay among them was a hit without a stall.
Behind the demand fetch of the next instruction, a D-cache stall of any length and a drain return the stall of their run
ahead alone, and every replay they issue is a hit without a stall. -/
theorem replays_hit (cfg : CpuConfig) (h : cfg.Accepted) (hen : cfg.icache.enabled = true)
    (hmem : cfg.memorySize + 16 ≤ 2 ^ 32) (program data : ℕ → BitVec 8) (pc : BitVec 32) (n : ℕ) (s : CpuModel cfg)
    (hs : Exec.iter CpuModel.step n (boot cfg h program data pc) = some s) :
    s.ifetch.nextSequentialPc ∈ [s.pc, s.pc + 4, s.pc + 8, s.pc + 12] ∧
    s.icache = (boot cfg h program data pc).icache.accessAll (accesses s.ifetch.requests) ∧
    List.Forall₂ HitsIfReplay s.ifetch.requests
      ((boot cfg h program data pc).icache.reports (accesses s.ifetch.requests)) ∧
    ∀ insn x f, s.pc &&& 3 = 0 → s.instructionMemory.read32 s.pc = .ok insn →
      FrontEnd.ensureThrough s.pc ⟨s.ifetch, s.icache⟩ = .ok x f →
      (∀ d ≠ 0, Replayed (FrontEnd.onDcacheStall s.pc d) f (s.pc + 12) d.toNat) ∧
        Replayed (FrontEnd.onSystemDrain s.pc) f (s.pc + 8) 2 := by
  have hi := CpuModel.inv_run hmem h hs
  have hrun := CpuModel.answered_run hen hmem h hs
  refine ⟨hi.pointer hen, hrun.icache, hrun.replays, ?_⟩
  intro insn x f ha hfetch hdemand
  have hbound := Memory.read32_ok_bound hfetch
  rw [hi.size] at hbound
  have hp : Placed s.pc := ⟨aligned_iff.1 ha, by omega⟩
  obtain ⟨j, hj, hl⟩ := hi.lead
  obtain ⟨y, g, hok, -, hlead⟩ := hl.ensureThrough hp.ahead_self
  cases hdemand.symm.trans hok
  refine ⟨?_, ?_⟩
  · intro d hd
    exact hlead.dcacheStall_replayed (hp.ahead (t := 3) (by omega)) (by omega) hen hd
  · exact hlead.systemDrain_replayed (hp.ahead (t := 2) (by omega)) (by omega) hen

/-- behind the store of `storeThenJump`, the word at 12 has been presented seven times more -/
theorem replays_hit_storeThenJump : ∃ s, Exec.iter CpuModel.step 1 storeThenJumpBoot = some s ∧
    s.ifetch.requests.map Request.replay = List.replicate 4 false ++ List.replicate 7 true ∧
    s.ifetch.nextSequentialPc ∈ [s.pc, s.pc + 4, s.pc + 8, s.pc + 12] ∧
    List.Forall₂ HitsIfReplay s.ifetch.requests (storeThenJumpBoot.icache.reports (accesses s.ifetch.requests)) := by
  obtain ⟨s, hs, hlog⟩ := (Option.any_eq_true _ _).1 (by decide +kernel :
    (Exec.iter CpuModel.step 1 storeThenJumpBoot).any (fun s =>
      s.ifetch.requests.map Request.replay = List.replicate 4 false ++ List.replicate 7 true) = true)
  obtain ⟨hpointer, -, hreplays, -⟩ := replays_hit splitCaches splitCaches_accepted rfl (by decide)
    (wordImage storeThenJump) 0 0 1 s hs
  exact ⟨s, hs, of_decide_eq_true hlog, hpointer, hreplays⟩

end Rv32im
