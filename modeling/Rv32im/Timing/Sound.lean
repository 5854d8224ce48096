/-
What holds in every state that calls can reach, at any pc and any memory size, and also after calls that threw.

- `FrontEnd.Sound`: the I-cache is clean and the fetch pointer aligned. Every fetch call that returns keeps it, and
  returns after the requests that `Timing/FrontEnd.lean` says (`ensureThrough_fetched`, `onDcacheStall_fetched`).
- `FrontEnd.aheadStall`: the stall of the fetches behind a D-cache stall, from the contents before the demand fetch.
- `CpuModel.Sound`, `called_sound`: the sizes of the memories, x0, and the front end of an aligned pc.
- `charge_throws_iff`: when the look-ahead behind a store throws.
-/
import Rv32im.Step.Throw

namespace Rv32im

namespace FrontEnd

variable {config : IFetchStreamConfig} {icfg : CacheConfig}

/-- a front end whose I-cache is clean and whose fetch pointer is aligned -/
structure Sound (f : FrontEnd config icfg) : Prop where
  clean : DirectMapped.Clean f.icache.contents
  next : icfg.enabled = true → Aligned f.ifetch.nextSequentialPc

theorem aligned_below {target : BitVec 32} (ht : Aligned target) (htop : target ≠ 0xfffffffc) :
    target.toNat + 4 < 2 ^ 32 := by
  have hne : target.toNat ≠ 0xfffffffc := fun h => htop (BitVec.eq_of_toNat_eq h)
  unfold Aligned at ht
  omega

theorem Sound.passable {f : FrontEnd config icfg} (h : f.Sound) {target : BitVec 32} (ht : Aligned target)
    (htop : target ≠ 0xfffffffc) : f.Passable target := ⟨ht, aligned_below ht htop, h.next⟩

theorem aligned_nextFrom {f : FrontEnd config icfg} (h : f.Sound) {target : BitVec 32} (ht : Aligned target)
    (hen : icfg.enabled = true) : Aligned (f.nextFrom target) := by
  unfold nextFrom nextAfter
  rw [if_pos hen]
  split_ifs
  · exact ht.add aligned_four
  · exact h.next hen

/-- what a call that performs `reqs` returned -/
theorem Performs.of_ok {m : FetchM config icfg (BitVec 32)} {f g : FrontEnd config icfg} {reqs : List Request}
    {next x : BitVec 32} (h : Performs m f reqs next) (hok : m f = .ok x g) :
    Fetched f g reqs x ∧ g.ifetch.nextSequentialPc = next := by
  obtain ⟨y, k, hm, hf, hn⟩ := h
  rw [hok] at hm
  cases hm
  exact ⟨hf, hn⟩

/-- **A demand fetch that returns** has passed its target, unless the I-cache is disabled. -/
theorem ensureThrough_fetched {f g : FrontEnd config icfg} (h : f.Sound) {target x : BitVec 32} (ht : Aligned target)
    (hok : ensureThrough target f = .ok x g) :
    Fetched f g (f.firsts target) x ∧ g.ifetch.nextSequentialPc = f.nextFrom target := by
  cases hen : icfg.enabled with
  | false =>
    rw [ensureThrough_disabled hen] at hok
    cases hok
    refine ⟨?_, by simp [nextFrom, hen]⟩
    simpa [firsts, hen] using Fetched.refl h.clean
  | true =>
    rcases eq_or_ne target 0xfffffffc with rfl | htop
    · rw [ensureThrough_top hen (h.next hen)] at hok
      cases hok
    · exact (ensureThrough_performs (h.passable ht htop) h.clean).of_ok hok

theorem ensureThrough_sound {f g : FrontEnd config icfg} (h : f.Sound) {target x : BitVec 32} (ht : Aligned target)
    (hok : ensureThrough target f = .ok x g) : g.Sound := by
  obtain ⟨hf, hn⟩ := ensureThrough_fetched h ht hok
  exact ⟨hf.clean, fun hen => hn ▸ aligned_nextFrom h ht hen⟩

/-- a call that starts with a fetch through `target` returns only below the top of the address space -/
theorem Sound.passable_of_ok {α : Type} {f g : FrontEnd config icfg} (h : f.Sound) {target : BitVec 32}
    (ht : Aligned target) (hen : icfg.enabled = true) {k : BitVec 32 → FetchM config icfg α} {x : α}
    (hok : (ensureThrough target >>= k) f = .ok x g) : f.Passable target := by
  refine h.passable ht ?_
  rintro rfl
  rw [Exec.bind_apply, ensureThrough_top hen (h.next hen)] at hok
  cases hok

theorem onDcacheStall_passable {f g : FrontEnd config icfg} (h : f.Sound) {pc d x : BitVec 32} (hd : d ≠ 0)
    (ht : Aligned (pc + config.dcacheHoldAheadBytes)) (hen : icfg.enabled = true)
    (hok : onDcacheStall pc d f = .ok x g) : f.Passable (pc + config.dcacheHoldAheadBytes) := by
  have hgo : ¬ (!icfg.enabled || decide (d = 0)) = true := by simpa [hen] using hd
  unfold onDcacheStall at hok
  rw [if_neg hgo] at hok
  exact h.passable_of_ok ht hen hok

/-- **A D-cache stall whose fetches return** has fetched and replayed its target. -/
theorem onDcacheStall_fetched {f g : FrontEnd config icfg} (h : f.Sound) {pc d x : BitVec 32} (hd : d ≠ 0)
    (ht : Aligned (pc + config.dcacheHoldAheadBytes)) (hok : onDcacheStall pc d f = .ok x g) :
    Fetched f g (f.firsts (pc + config.dcacheHoldAheadBytes) ++
      replays icfg d.toNat (pc + config.dcacheHoldAheadBytes)) x ∧
      g.ifetch.nextSequentialPc = f.nextFrom (pc + config.dcacheHoldAheadBytes) := by
  cases hen : icfg.enabled with
  | false =>
    simp only [onDcacheStall, hen, Bool.not_false, Bool.true_or, if_true, Exec.pure_apply, Outcome.ok.injEq] at hok
    obtain ⟨rfl, rfl⟩ := hok
    refine ⟨?_, by simp [nextFrom, hen]⟩
    simpa [firsts, replays, hen] using Fetched.refl h.clean
  | true => exact (onDcacheStall_performs hd (onDcacheStall_passable h hd ht hen hok) h.clean).of_ok hok

theorem onDcacheStall_sound {f g : FrontEnd config icfg} (h : f.Sound) {pc d x : BitVec 32}
    (ht : Aligned (pc + config.dcacheHoldAheadBytes)) (hok : onDcacheStall pc d f = .ok x g) : g.Sound := by
  rcases eq_or_ne d 0 with rfl | hd
  · rw [onDcacheStall_zero] at hok
    cases hok
    exact h
  · obtain ⟨hf, hn⟩ := onDcacheStall_fetched h hd ht hok
    exact ⟨hf.clean, fun hen => hn ▸ aligned_nextFrom h ht hen⟩

theorem redirect_sound {f g : FrontEnd config icfg} (h : f.Sound) {wrong pc target x : BitVec 32}
    (ht : Aligned (pc + wrong)) (hok : redirect wrong pc target f = .ok x g) :
    DirectMapped.Clean g.icache.contents ∧ g.ifetch.nextSequentialPc = target := by
  cases hen : icfg.enabled with
  | false =>
    simp only [redirect, hen, Bool.not_false, if_true, Exec.bind_apply, Exec.modify_apply, Exec.andThen_ok,
      Exec.pure_apply, Outcome.ok.injEq] at hok
    obtain ⟨-, rfl⟩ := hok
    exact ⟨h.clean, rfl⟩
  | true =>
    have hbody := hok
    simp only [redirect, hen, Bool.not_true, Bool.false_eq_true, if_false] at hbody
    rw [Exec.bind_apply, Exec.get_apply, Exec.andThen_ok] at hbody
    obtain ⟨hf, hn⟩ := (redirect_performs (h.passable_of_ok ht hen hbody) h.clean target).of_ok hok
    exact ⟨hf.clean, hn⟩

theorem onSystemDrain_sound {f g : FrontEnd config icfg} (h : f.Sound) {pc x : BitVec 32}
    (ht : Aligned (pc + config.systemLookaheadBytes)) (hok : onSystemDrain pc f = .ok x g) : g.Sound := by
  cases hen : icfg.enabled with
  | false =>
    simp only [onSystemDrain, hen, Bool.not_false, if_true, Exec.pure_apply, Outcome.ok.injEq] at hok
    obtain ⟨-, rfl⟩ := hok
    exact h
  | true =>
    have hbody := hok
    simp only [onSystemDrain, hen, Bool.not_true, Bool.false_eq_true, if_false] at hbody
    obtain ⟨hf, hn⟩ := (onSystemDrain_performs (h.passable_of_ok ht hen hbody) h.clean).of_ok hok
    exact ⟨hf.clean, fun _ => hn ▸ aligned_nextFrom h ht hen⟩

/-- the redirect or drain of an instruction leaves the pointer aligned, unless the target is not -/
theorem controlCall_sound {f g : FrontEnd {} icfg} (h : f.Sound) {k : Kind} {pc nextPc x : BitVec 32}
    (ha : Aligned pc) (hok : Caches.controlCall icfg k pc nextPc f = .ok x g) :
    DirectMapped.Clean g.icache.contents ∧
      (icfg.enabled = true → Aligned nextPc → Aligned g.ifetch.nextSequentialPc) := by
  have h8 : Aligned (pc + 8) := ha.add aligned_eight
  unfold Caches.controlCall at hok
  split at hok
  · obtain ⟨hc, hn⟩ := redirect_sound h h8 hok
    exact ⟨hc, fun _ ht => hn ▸ ht⟩
  · obtain ⟨hc, hn⟩ := redirect_sound h h8 hok
    exact ⟨hc, fun _ ht => hn ▸ ht⟩
  · have hg := onSystemDrain_sound h h8 hok
    exact ⟨hg.clean, fun hen _ => hg.next hen⟩
  · cases hok
    exact ⟨h.clean, fun hen _ => h.next hen⟩

/-! ## The fetches behind a D-cache stall -/

/-- the stall of the fetches behind a D-cache stall of the instruction at `pc`, from the state before its own fetch:
the words from the fetch pointer through the held one, as far as they are absent -/
def aheadStall (f : FrontEnd config icfg) (pc : BitVec 32) : BitVec 32 :=
  let held := pc + config.dcacheHoldAheadBytes
  let fetched := DirectMapped.readAll icfg.idx f.icache.contents (blocks (f.firsts pc))
  let ahead := if icfg.enabled then through (f.nextFrom pc) held ++ [⟨held, true⟩] else []
  BitVec.ofNat 32 (DirectMapped.misses icfg.idx fetched (blocks ahead) * icfg.penalty)

theorem aheadStall_eq {f f₁ f₂ : FrontEnd config icfg} (h : f.Sound) {pc d s₁ s₂ : BitVec 32} (hd : d ≠ 0)
    (ha : Aligned pc) (ht : Aligned (pc + config.dcacheHoldAheadBytes)) (h₁ : ensureThrough pc f = .ok s₁ f₁)
    (h₂ : onDcacheStall pc d f₁ = .ok s₂ f₂) : s₂ = f.aheadStall pc := by
  obtain ⟨hf₁, hn₁⟩ := ensureThrough_fetched h ha h₁
  obtain ⟨hf₂, -⟩ := onDcacheStall_fetched (ensureThrough_sound h ha h₁) hd ht h₂
  obtain ⟨n, hn⟩ : ∃ n, d.toNat = n + 1 := ⟨d.toNat - 1, by
    have : d.toNat ≠ 0 := fun h0 => hd (BitVec.eq_of_toNat_eq h0)
    omega⟩
  have hfirsts : f₁.firsts (pc + config.dcacheHoldAheadBytes) =
      if icfg.enabled then through (f.nextFrom pc) (pc + config.dcacheHoldAheadBytes) else [] := hn₁ ▸ rfl
  rw [hf₂.stalls, hfirsts]
  unfold aheadStall misses replays
  rw [hf₁.contents, hn]
  cases hen : icfg.enabled with
  | false => rfl
  | true =>
    have hrep : blocks (List.replicate (n + 1) (⟨pc + config.dcacheHoldAheadBytes, true⟩ : Request)) =
        List.replicate (n + 1) (block (pc + config.dcacheHoldAheadBytes)) := List.map_replicate
    simp only [if_true, blocks_append, hrep, DirectMapped.misses_append_replicate]
    rfl

theorem aheadStall_enabled {f : FrontEnd config icfg} {pc : BitVec 32} (h : f.aheadStall pc ≠ 0) :
    icfg.enabled = true := by
  cases hen : icfg.enabled with
  | true => rfl
  | false =>
    refine absurd ?_ h
    simp [aheadStall, hen]

end FrontEnd

namespace CpuModel

variable {cfg : CpuConfig}

/-! ## Reachable states -/

structure Sound (s : CpuModel cfg) : Prop where
  code : s.instructionMemory.size = cfg.memorySize
  data : s.dataMemory.size = cfg.memorySize
  zero : s.regs 0 = 0
  clean : DirectMapped.Clean s.icache.contents
  next : cfg.icache.enabled = true → Aligned s.pc → Aligned s.ifetch.nextSequentialPc

theorem Sound.frontEnd {s : CpuModel cfg} (h : s.Sound) (ha : Aligned s.pc) : s.caches.frontEnd.Sound :=
  ⟨h.clean, fun hen => h.next hen ha⟩

theorem sound_boot (h : cfg.Accepted) (program data : ℕ → BitVec 8) (pc : BitVec 32) :
    (boot cfg h program data pc).Sound where
  code := Memory.ofImage_size _ _
  data := Memory.ofImage_size _ _
  zero := rfl
  clean := by
    have hempty : (boot cfg h program data pc).icache.contents = DirectMapped.empty :=
      DirectMappedCacheModel.contents_reset (.fresh h.icache)
    rw [hempty]
    exact DirectMapped.clean_empty
  next := fun _ ha => ha

/-- a step that returns keeps the state sound -/
theorem Stepped.sound {s t : CpuModel cfg} {b : Bool} (w : Stepped s b t) (h : s.Sound) : t.Sound := by
  have ha : Aligned s.pc := aligned_iff.1 w.running.aligned
  obtain ⟨q⟩ := Caches.charge_ok.1 w.charge
  have h₁ := FrontEnd.ensureThrough_sound (h.frontEnd ha) ha q.demand
  have h₂ := FrontEnd.onDcacheStall_sound h₁ (ha.add aligned_twelve) q.ahead
  obtain ⟨hc, hn⟩ := FrontEnd.controlCall_sound h₂ ha q.control
  have hfront : w.c.frontEnd = q.f₃ := q.front
  constructor
  · exact (congrArg (fun u => u.instructionMemory.size) w.after).trans h.code
  · exact (congrArg (fun u => u.dataMemory.size) w.after).trans ((effect_mem w.effect).1.trans h.data)
  · exact (congrArg (fun u => u.regs 0) w.after).trans (Function.update_self 0 (0 : BitVec 32) (w.e.regs s.regs))
  · have hi : t.icache = q.f₃.icache := (congrArg CpuModel.icache w.after).trans (congrArg FrontEnd.icache hfront)
    rw [hi]
    exact hc
  · have hi : t.ifetch = q.f₃.ifetch := (congrArg CpuModel.ifetch w.after).trans (congrArg FrontEnd.ifetch hfront)
    have hpc : t.pc = w.e.nextPc := congrArg CpuModel.pc w.after
    rw [hi, hpc]
    exact hn

/-- so does a step that throws -/
theorem Thrown.sound {s t : CpuModel cfg} {x : Exn} (h : Thrown s x t) (hs : s.Sound) : t.Sound := by
  have hkeep : ∀ {c : Caches cfg}, c.frontEnd.Sound → DirectMapped.Clean c.icache.contents ∧
      (cfg.icache.enabled = true → Aligned s.pc → Aligned c.ifetch.nextSequentialPc) := fun hc =>
    ⟨hc.clean, fun hen _ => hc.next hen⟩
  cases h with
  | limit _ => exact hs
  | misaligned _ _ => exact hs
  | fetch _ _ => exact hs
  | switch hrun _ hd _ =>
    have ha : Aligned s.pc := aligned_iff.1 hrun.aligned
    obtain ⟨f, hf, rfl⟩ := Exec.zoom_ok.1 hd
    have h₁ : f.Sound := FrontEnd.ensureThrough_sound (hs.frontEnd ha) ha hf
    exact ⟨hs.code, hs.data, hs.zero, h₁.clean, fun hen _ => h₁.next hen⟩
  | lookahead hrun _ he hc =>
    have ha : Aligned s.pc := aligned_iff.1 hrun.aligned
    obtain ⟨s₁, f₁, s₂, f₂, h₁, h₂, -, rfl⟩ := (Caches.charge_throw ha).1 hc
    have hf₁ := FrontEnd.ensureThrough_sound (hs.frontEnd ha) ha h₁
    have hf₂ := FrontEnd.onDcacheStall_sound hf₁ (ha.add aligned_twelve) h₂
    exact ⟨hs.code, (effect_mem he).1.trans hs.data, hs.zero, hf₂.clean, fun hen _ => hf₂.next hen⟩

/-- **Every state that calls can reach is sound**, whether the calls returned or threw. -/
theorem called_sound {s₀ s : CpuModel cfg} (h₀ : s₀.Sound) (h : Exec.Called step s₀ s) : s.Sound := by
  apply called_inv _ _ h h₀
  · intro s t b w hs
    exact w.sound hs
  · intro s t x w hs
    exact w.sound hs

/-! ## The look-ahead behind a store -/

/-- **The look-ahead throws** behind a store that stalls in the D-cache, in front of fetches that stall too, at the end
of instruction memory; at two pcs the fetches do not return. -/
theorem charge_throws_iff {s : CpuModel cfg} (hs : s.Sound) (ha : Aligned s.pc) (k : Kind) (nextPc : BitVec 32)
    {x : Exn} : (∃ c, Caches.charge k s.pc nextPc s.look s.caches = .throw x c) ↔
      k.stores = true ∧ s.look = .error x ∧ s.caches.dstall k ≠ 0 ∧ s.caches.frontEnd.aheadStall s.pc ≠ 0 ∧
        s.pc ≠ 0xfffffff0 ∧ s.pc ≠ 0xfffffffc := by
  have h12 : Aligned (s.pc + 12) := ha.add aligned_twelve
  have hf := hs.frontEnd ha
  simp only [Caches.charge_throw ha]
  refine ⟨?_, ?_⟩
  · intro ⟨c, s₁, f₁, s₂, f₂, h₁, h₂, hfault, _⟩
    obtain ⟨hk, hlook, hd, hs₂⟩ := Caches.lookFault_some.1 hfault
    have hstall : s.caches.frontEnd.aheadStall s.pc ≠ 0 := FrontEnd.aheadStall_eq hf hd ha h12 h₁ h₂ ▸ hs₂
    have hen : cfg.icache.enabled = true := FrontEnd.aheadStall_enabled hstall
    refine ⟨hk, hlook, hd, hstall, fun htop => ?_, fun htop => ?_⟩
    · have hpass := FrontEnd.onDcacheStall_passable (FrontEnd.ensureThrough_sound hf ha h₁) hd h12 hen h₂
      have hbelow := hpass.below
      rw [htop] at hbelow
      exact absurd hbelow (by decide)
    · rw [htop, FrontEnd.ensureThrough_top hen (hf.next hen)] at h₁
      cases h₁
  · intro ⟨hk, hlook, hd, hstall, htop, htop'⟩
    have h12' : s.pc + 12 ≠ 0xfffffffc := fun h => htop (by bv_omega)
    obtain ⟨s₁, f₁, h₁, -, -⟩ := FrontEnd.ensureThrough_performs (hf.passable ha htop') hf.clean
    have hf₁ := FrontEnd.ensureThrough_sound hf ha h₁
    obtain ⟨s₂, f₂, h₂, -, -⟩ := FrontEnd.onDcacheStall_performs hd (hf₁.passable h12 h12') hf₁.clean
    have hs₂ : s₂ ≠ 0 := (FrontEnd.aheadStall_eq hf hd ha h12 h₁ h₂).symm ▸ hstall
    exact ⟨_, s₁, f₁, s₂, f₂, h₁, h₂, Caches.lookFault_some.2 ⟨hk, hlook, hd, hs₂⟩, rfl⟩

end CpuModel

end Rv32im
