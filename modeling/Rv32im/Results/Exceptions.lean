/-
When a step throws, and what a throw leaves behind, in every state that calls can reach.

A step has five architectural reasons to throw (`ArchFault`). There are two more cases. The look-ahead behind a store
fetches the next word without checking that there is one: `LookaheadFault`. And the fetch loop of the last word of the
address space does not end, so a step there hangs before it can throw: `FetchHang`.

- `throws_iff_architectural`: the exceptions of a step are the architectural ones exactly without these two cases.
- `failing_step_atomic`: a throw keeps the architectural state exactly when no `LookaheadFault` has changed memory.
- `endOfMemory`: a store in the last word of memory, with both caches, at which both fail.
-/
import Rv32im.Isa.Kind
import Rv32im.Timing.Sound

namespace Rv32im

namespace CpuModel

variable {cfg : CpuConfig}

/-! ## Reasons to throw -/

/-- the word at the pc -/
def word (s : CpuModel cfg) : ℕ := Isa.read s.instructionMemory.image s.pc.toNat 4

/-- the architectural reasons -/
inductive ArchFault (s : CpuModel cfg) : Prop where
  | limit (h : cfg.maxInstructions ≤ s.stats.retired)
  | misaligned (h : s.pc.toNat % 4 ≠ 0)
  | fetch (h : cfg.memorySize < s.pc.toNat + 4)
  | encoding (h : Isa.decode s.word = none)
  | operand (i : Isa.Instr) (h : Isa.decode s.word = some i) (hr : i.inRange cfg.memorySize s.isa = false)

/-- a live model in front of a store that executes in the last word of memory, and stalls in the D-cache in front of
fetches that stall too -/
structure LookaheadFault (s : CpuModel cfg) (w : Isa.Width) (rs1 rs2 : Fin 32) (imm : ℤ) : Prop where
  running : Running s
  inside : s.pc.toNat + 4 ≤ cfg.memorySize
  last : cfg.memorySize < s.pc.toNat + 8
  store : Isa.decode s.word = some (.store w rs1 rs2 imm)
  operand : (Isa.Instr.store w rs1 rs2 imm).inRange cfg.memorySize s.isa = true
  dstall : (cfg.dcache.outcome s.dcache.contents (BitVec.ofNat 32 (Isa.wrap (s.isa.x rs1 + imm)))).stallCycles ≠ 0
  istall : s.caches.frontEnd.aheadStall s.pc ≠ 0
  ends : s.pc ≠ 0xfffffff0 ∧ s.pc ≠ 0xfffffffc

/-- a live model in front of a word at the top of the address space that has a reason to throw, with an I-cache -/
structure FetchHang (s : CpuModel cfg) : Prop where
  running : Running s
  top : s.pc = 0xfffffffc
  inside : 2 ^ 32 ≤ cfg.memorySize
  icache : cfg.icache.enabled = true
  fault : ArchFault s

/-! ## The fetched word -/

section Words

variable {s : CpuModel cfg} {insn : BitVec 32}

theorem fetch_word (ha : Aligned s.pc) (hf : s.instructionMemory.read32 s.pc = .ok insn) : insn.toNat = s.word := by
  apply read32_toNat _ hf
  unfold Aligned at ha
  omega

/-- the effect of the word at the pc, as far as it exists -/
theorem effect_word (hs : s.Sound) (ha : Aligned s.pc) (hf : s.instructionMemory.read32 s.pc = .ok insn) :
    (effect s.dataMemory s.regs s.pc insn).toOption.map Effect.kind = (Isa.decode s.word).bind fun i =>
      if i.inRange cfg.memorySize s.isa then some (i.kind s.isa) else none := by
  have h := effect_kind s.dataMemory s.regs s.pc insn
  rwa [fetch_word ha hf, hs.data] at h

theorem effect_exists (hs : s.Sound) (ha : Aligned s.pc) (hf : s.instructionMemory.read32 s.pc = .ok insn)
    {i : Isa.Instr} (hd : Isa.decode s.word = some i) (hr : i.inRange cfg.memorySize s.isa = true) :
    ∃ e, effect s.dataMemory s.regs s.pc insn = .ok e ∧ e.kind = i.kind s.isa := by
  have h := effect_word hs ha hf
  rw [hd, Option.bind_some, if_pos hr] at h
  cases he : effect s.dataMemory s.regs s.pc insn with
  | error x =>
    rw [he] at h
    cases h
  | ok e =>
    rw [he] at h
    exact ⟨e, rfl, Option.some.inj h⟩

theorem instr_of_effect (hs : s.Sound) (ha : Aligned s.pc) (hf : s.instructionMemory.read32 s.pc = .ok insn)
    {e : Effect} (he : effect s.dataMemory s.regs s.pc insn = .ok e) :
    ∃ i, Isa.decode s.word = some i ∧ i.inRange cfg.memorySize s.isa = true ∧ e.kind = i.kind s.isa := by
  have h := effect_word hs ha hf
  rw [he] at h
  obtain ⟨i, hi, hrun⟩ := Option.bind_eq_some_iff.1 h.symm
  split_ifs at hrun with hr
  exact ⟨i, hi, hr, (Option.some.inj hrun).symm⟩

theorem fault_of_error (hs : s.Sound) (ha : Aligned s.pc) (hf : s.instructionMemory.read32 s.pc = .ok insn) {x : Exn}
    (he : effect s.dataMemory s.regs s.pc insn = .error x) : ArchFault s := by
  cases hd : Isa.decode s.word with
  | none => exact .encoding hd
  | some i =>
    cases hr : i.inRange cfg.memorySize s.isa with
    | false => exact .operand i hd hr
    | true =>
      obtain ⟨e, hok, -⟩ := effect_exists hs ha hf hd hr
      rw [he] at hok
      cases hok

/-- the look-ahead fails exactly where there is no next word -/
theorem look_error_iff (hs : s.Sound) (ha : Aligned s.pc) (htop : s.pc ≠ 0xfffffffc) :
    (∃ x, s.look = .error x) ↔ cfg.memorySize < s.pc.toNat + 8 := by
  have h4 : (s.pc + 4).toNat = s.pc.toNat + 4 := toNat_add_of_lt (FrontEnd.aligned_below ha htop)
  have hsize := hs.code
  refine ⟨?_, ?_⟩
  · intro ⟨x, hx⟩
    have hbound := (Memory.read32_error.1 (look_error hx)).1
    omega
  · intro hlast
    have hread : s.instructionMemory.read32 (s.pc + 4) = .error (.outOfRange (s.pc + 4) 4 s.instructionMemory.size) :=
      Memory.read32_error.2 ⟨by omega, rfl⟩
    have hal : ¬ (s.pc + 4) &&& 3 ≠ 0 := not_not.2 (aligned_iff.2 (ha.add aligned_four))
    refine ⟨.outOfRange (s.pc + 4) 4 s.instructionMemory.size, ?_⟩
    unfold look sequentialNextRedirectTarget
    rw [if_neg hal, hread]
    rfl

theorem dstall_store (s : CpuModel cfg) (a : BitVec 32) :
    s.caches.dstall (.store a) = (cfg.dcache.outcome s.dcache.contents a).stallCycles := by
  unfold Caches.dstall
  rw [Caches.daccess_eq]
  rfl

end Words

/-! ## From a throw to its reason -/

/-- **The replay check never fires**: no throw is its exception. -/
theorem Thrown.not_replayMiss {s t : CpuModel cfg} {x : Exn} (h : Thrown s x t) : x ≠ .replayMiss := by
  rintro rfl
  cases h with
  | fetch _ hf => cases (Memory.read32_error.1 hf).2
  | switch _ _ _ he =>
    rcases effect_error he with ⟨reason, hx⟩ | ⟨addr, width, hx⟩
    · cases hx
    · cases hx
  | lookahead hrun _ _ hc =>
    obtain ⟨_, _, _, _, _, _, hfault, _⟩ := (Caches.charge_throw (aligned_iff.1 hrun.aligned)).1 hc
    have hlook := (Caches.lookFault_some.1 hfault).2.1
    cases (Memory.read32_error.1 (look_error hlook)).2

/-- a throw behind the switch -/
theorem lookahead_fault {s : CpuModel cfg} (hs : s.Sound) (hrun : Running s) {insn : BitVec 32} {e : Effect}
    {c : Caches cfg} {x : Exn} (hf : s.instructionMemory.read32 s.pc = .ok insn)
    (he : effect s.dataMemory s.regs s.pc insn = .ok e)
    (hc : Caches.charge e.kind s.pc e.nextPc s.look s.caches = .throw x c) :
    ∃ w rs1 rs2 imm, LookaheadFault s w rs1 rs2 imm := by
  have ha : Aligned s.pc := aligned_iff.1 hrun.aligned
  have hin := Memory.read32_ok_bound hf
  obtain ⟨i, hi, hr, hkind⟩ := instr_of_effect hs ha hf he
  obtain ⟨hk, hlook, hd, hstall, htop, htop'⟩ := (charge_throws_iff hs ha _ _).1 ⟨_, hc⟩
  have hlast := (look_error_iff hs ha htop').1 ⟨_, hlook⟩
  rw [hkind] at hk hd
  cases i with
  | store w rs1 rs2 imm =>
    have hd' := dstall_store s (BitVec.ofNat 32 (Isa.wrap (s.isa.x rs1 + imm)))
    exact ⟨w, rs1, rs2, imm, hrun, hs.code ▸ hin, hlast, hi, hr, hd' ▸ hd, hstall, htop, htop'⟩
  | _ => cases hk

/-- a throw has an architectural reason, or comes from the look-ahead -/
theorem Thrown.reason {s t : CpuModel cfg} {x : Exn} (h : Thrown s x t) (hs : s.Sound) :
    ArchFault s ∨ ∃ w rs1 rs2 imm, LookaheadFault s w rs1 rs2 imm := by
  cases h with
  | limit hmax => exact Or.inl (.limit hmax)
  | misaligned _ ha => exact Or.inl (.misaligned ha)
  | fetch _ hf =>
    have hbound := (Memory.read32_error.1 hf).1
    have hsize := hs.code
    exact Or.inl (.fetch (by omega))
  | switch hrun hf _ he => exact Or.inl (fault_of_error hs (aligned_iff.1 hrun.aligned) hf he)
  | lookahead hrun hf he hc => exact Or.inr (lookahead_fault hs hrun hf he hc)

/-! ## From a reason to its throw -/

/-- a live model with an architectural reason throws, unless its fetch hangs -/
theorem ArchFault.thrown {s : CpuModel cfg} (h : ArchFault s) (hlive : s.halted = false) (hs : s.Sound)
    (hhang : ¬ FetchHang s) : ∃ x t, Thrown s x t := by
  by_cases hmax : cfg.maxInstructions ≤ s.stats.retired
  · exact ⟨_, _, .limit hmax⟩
  by_cases ha : Aligned s.pc
  swap
  · exact ⟨_, _, .misaligned (not_le.1 hmax) ha⟩
  have hrun : Running s := ⟨hlive, not_le.1 hmax, aligned_iff.2 ha⟩
  cases hf : s.instructionMemory.read32 s.pc with
  | error x => exact ⟨_, _, .fetch hrun hf⟩
  | ok insn =>
    have hin := Memory.read32_ok_bound hf
    have hsize := hs.code
    cases he : effect s.dataMemory s.regs s.pc insn with
    | ok e =>
      -- the word decodes and its operand is inside memory, so nothing is left to be the reason
      obtain ⟨i, hi, hr, -⟩ := instr_of_effect hs ha hf he
      cases h with
      | limit h => exact absurd h hmax
      | misaligned h => exact absurd ha h
      | fetch h => omega
      | encoding h =>
        rw [hi] at h
        cases h
      | operand j hj hrj =>
        rw [hi] at hj
        cases hj
        rw [hr] at hrj
        cases hrj
    | error x =>
      have hdemand : ∃ st f, FrontEnd.ensureThrough s.pc s.caches.frontEnd = .ok st f := by
        cases hen : cfg.icache.enabled with
        | false => exact ⟨0, _, FrontEnd.ensureThrough_disabled hen s.pc _⟩
        | true =>
          have htop : s.pc ≠ 0xfffffffc := by
            intro htop
            rw [htop] at hin
            have hval : (0xfffffffc : BitVec 32).toNat = 2 ^ 32 - 4 := rfl
            exact hhang ⟨hrun, htop, by omega, hen, h⟩
          obtain ⟨st, f, hok, -, -⟩ :=
            FrontEnd.ensureThrough_performs ((hs.frontEnd ha).passable ha htop) hs.clean
          exact ⟨st, f, hok⟩
      obtain ⟨st, f, hok⟩ := hdemand
      exact ⟨_, _, .switch hrun hf (Exec.zoom_ok.2 ⟨f, hok, rfl⟩) he⟩

/-- the two cases beside the architectural reasons exclude a throw for one of them -/
theorem LookaheadFault.not_arch {s : CpuModel cfg} {w : Isa.Width} {rs1 rs2 : Fin 32} {imm : ℤ}
    (h : LookaheadFault s w rs1 rs2 imm) : ¬ ArchFault s := by
  intro hf
  have hstore := h.store
  cases hf with
  | limit hmax => exact absurd h.running.below (not_lt.2 hmax)
  | misaligned ha => exact ha (aligned_iff.1 h.running.aligned)
  | fetch hin => exact absurd h.inside (not_le.2 hin)
  | encoding hd =>
    rw [hstore] at hd
    cases hd
  | operand i hd hr =>
    rw [hstore] at hd
    cases hd
    rw [h.operand] at hr
    cases hr

/-- **The look-ahead throws** after the store has been executed. -/
theorem LookaheadFault.thrown {s : CpuModel cfg} {w : Isa.Width} {rs1 rs2 : Fin 32} {imm : ℤ}
    (h : LookaheadFault s w rs1 rs2 imm) (hs : s.Sound) :
    ∃ insn e x t, s.instructionMemory.read32 s.pc = .ok insn ∧ effect s.dataMemory s.regs s.pc insn = .ok e ∧
      step s = .throw x t ∧ t.dataMemory = e.mem := by
  have ha : Aligned s.pc := aligned_iff.1 h.running.aligned
  have hin : s.pc.toNat + 4 ≤ s.instructionMemory.size := hs.code ▸ h.inside
  obtain ⟨insn, hf⟩ := Memory.read32_isOk hin
  obtain ⟨e, he, hkind⟩ := effect_exists hs ha hf h.store h.operand
  obtain ⟨x, hlook⟩ := (look_error_iff hs ha h.ends.2).2 h.last
  have hk : e.kind.stores = true := by
    rw [hkind]
    rfl
  have hd : s.caches.dstall e.kind ≠ 0 := by
    rw [hkind]
    exact (dstall_store s _).symm ▸ h.dstall
  obtain ⟨c, hc⟩ := (charge_throws_iff hs ha e.kind e.nextPc).2 ⟨hk, hlook, hd, h.istall, h.ends.1, h.ends.2⟩
  exact ⟨insn, e, x, _, hf, he, (step_throw h.running.live).2 (.lookahead h.running hf he hc), rfl⟩

/-- a step whose demand fetch hangs does not throw -/
theorem FetchHang.not_thrown {s t : CpuModel cfg} {x : Exn} (h : FetchHang s) (hs : s.Sound) : ¬ Thrown s x t := by
  intro hthrow
  have ha : Aligned s.pc := aligned_iff.1 h.running.aligned
  have hdemand : FrontEnd.ensureThrough s.pc s.caches.frontEnd = .diverge := by
    rw [h.top]
    exact FrontEnd.ensureThrough_top h.icache (hs.next h.icache ha)
  cases hthrow with
  | limit hmax => exact absurd h.running.below (not_lt.2 hmax)
  | misaligned _ hal => exact hal ha
  | fetch _ hf =>
    have hbound := (Memory.read32_error.1 hf).1
    have hin := h.inside
    have hsize := hs.code
    rw [h.top] at hbound
    have hval : (0xfffffffc : BitVec 32).toNat = 2 ^ 32 - 4 := rfl
    omega
  | switch _ _ hd _ =>
    obtain ⟨f, hf, -⟩ := Exec.zoom_ok.1 hd
    rw [hdemand] at hf
    cases hf
  | lookahead _ _ _ hc =>
    obtain ⟨-, -, -, -, -, htop⟩ := (charge_throws_iff hs ha _ _).1 ⟨_, hc⟩
    exact htop h.top

/-- the store of a `LookaheadFault` keeps memory exactly where the bytes are already there -/
theorem LookaheadFault.mem_iff {s : CpuModel cfg} {w : Isa.Width} {rs1 rs2 : Fin 32} {imm : ℤ}
    (h : LookaheadFault s w rs1 rs2 imm) (hs : s.Sound) {insn : BitVec 32} {e : Effect}
    (hf : s.instructionMemory.read32 s.pc = .ok insn) (he : effect s.dataMemory s.regs s.pc insn = .ok e) :
    e.mem = s.dataMemory ↔
      Isa.read s.isa.mem (Isa.wrap (s.isa.x rs1 + imm)) w.bytes = s.isa.x rs2 % 256 ^ w.bytes := by
  have ha : Aligned s.pc := aligned_iff.1 h.running.aligned
  have hsize : s.dataMemory.size ≤ 2 ^ 32 := by
    have hbelow := FrontEnd.aligned_below ha h.ends.2
    have hlast := h.last
    have hdata := hs.data
    unfold Aligned at ha
    omega
  -- the image after the store, from the instruction set
  have hrun := effect_isa s.dataMemory s.pc insn hs.zero hsize
  have hoperand : (Isa.Instr.store w rs1 rs2 imm).inRange s.dataMemory.size s.isa = true := hs.data ▸ h.operand
  rw [he, fetch_word ha hf, h.store, Option.bind_some] at hrun
  have himage : e.mem.image = Isa.write s.isa.mem (Isa.wrap (s.isa.x rs1 + imm)) (s.isa.x rs2) w.bytes :=
    congrArg Isa.State.mem (Option.some.inj (hrun.trans (if_pos hoperand)))
  have hbytes : ∀ a, s.isa.mem a < 256 := s.dataMemory.image_lt
  rw [← Isa.write_eq_self_iff hbytes, ← himage]
  exact ⟨fun heq => congrArg Memory.image heq, fun heq => Memory.eq_of_image (effect_mem he).1 heq⟩

end CpuModel

/-! ## Every reachable state -/

open CpuModel

/-- **Exceptions are architectural** exactly without a look-ahead behind the last word and without a hanging fetch. -/
theorem throws_iff_architectural (cfg : CpuConfig) (h : cfg.Accepted) (program data : ℕ → BitVec 8) (pc : BitVec 32)
    (s : CpuModel cfg) (hreach : Exec.Called step (boot cfg h program data pc) s) (hlive : s.halted = false) :
    ((∃ x t, step s = .throw x t) ↔ ArchFault s) ∧ (∀ t, step s ≠ .throw .replayMiss t) ↔
      (∀ w rs1 rs2 imm, ¬ LookaheadFault s w rs1 rs2 imm) ∧ ¬ FetchHang s := by
  have hs := called_sound (sound_boot h program data pc) hreach
  refine ⟨?_, ?_⟩
  · intro ⟨hiff, _⟩
    refine ⟨?_, ?_⟩
    · intro w rs1 rs2 imm hl
      obtain ⟨-, -, x, t, -, -, hthrow, -⟩ := hl.thrown hs
      exact hl.not_arch (hiff.1 ⟨x, t, hthrow⟩)
    · intro hh
      obtain ⟨x, t, hthrow⟩ := hiff.2 hh.fault
      exact hh.not_thrown hs ((step_throw hlive).1 hthrow)
  · intro ⟨hnl, hnh⟩
    refine ⟨⟨?_, ?_⟩, ?_⟩
    · intro ⟨x, t, hthrow⟩
      rcases ((step_throw hlive).1 hthrow).reason hs with hf | ⟨w, rs1, rs2, imm, hl⟩
      · exact hf
      · exact absurd hl (hnl w rs1 rs2 imm)
    · intro hf
      obtain ⟨x, t, hthrow⟩ := hf.thrown hlive hs hnh
      exact ⟨x, t, (step_throw hlive).2 hthrow⟩
    · intro t hthrow
      exact ((step_throw hlive).1 hthrow).not_replayMiss rfl

/-- the first instruction of a program that ends far below the end of memory -/
theorem throws_iff_architectural_cacheTest :
    let s := boot splitCaches splitCaches_accepted (wordImage cacheTest) 0 0
    ((∃ x t, step s = .throw x t) ↔ ArchFault s) ∧ ∀ t, step s ≠ .throw .replayMiss t := by
  intro s
  have hlast : ∀ w rs1 rs2 imm, ¬ LookaheadFault s w rs1 rs2 imm := by
    intro w rs1 rs2 imm hl
    exact absurd hl.last (by decide)
  have hhang : ¬ FetchHang s := by
    intro hh
    exact absurd hh.top (by decide)
  exact (throws_iff_architectural splitCaches splitCaches_accepted (wordImage cacheTest) 0 0 s .start rfl).2
    ⟨hlast, hhang⟩

/-! ## A store at the end of memory -/

def oneWord : CpuConfig := { splitCaches with memorySize := 4 }

theorem oneWord_accepted : oneWord.Accepted := ⟨⟨by decide, rfl⟩, ⟨by decide, rfl⟩⟩

/-- the program `sw x0, 0(x0)` in a memory of one word, over four data bytes of 1 -/
def endOfMemory : CpuModel oneWord := boot oneWord oneWord_accepted (wordImage [0x00002023]) (fun _ => 1) 0

theorem endOfMemory_fault : LookaheadFault endOfMemory .word 0 0 0 where
  running := ⟨rfl, by decide, by decide⟩
  inside := by decide
  last := by decide
  store := by decide +kernel
  operand := by decide +kernel
  dstall := by decide +kernel
  istall := by decide +kernel
  ends := by decide

theorem endOfMemory_sound : endOfMemory.Sound := sound_boot oneWord_accepted (wordImage [0x00002023]) (fun _ => 1) 0

/-- **An exception without an architectural reason**: the first step throws, since there is no word behind the store. -/
theorem throw_at_endOfMemory :
    Exec.Called step endOfMemory endOfMemory ∧ endOfMemory.halted = false ∧
      ¬ ((∃ x t, step endOfMemory = .throw x t) ↔ ArchFault endOfMemory) := by
  obtain ⟨-, -, x, t, -, -, hthrow, -⟩ := endOfMemory_fault.thrown endOfMemory_sound
  exact ⟨.start, rfl, fun hiff => endOfMemory_fault.not_arch (hiff.1 ⟨x, t, hthrow⟩)⟩

/-- **A failing step is atomic** exactly when no look-ahead behind the last word has made its store change memory. -/
theorem failing_step_atomic (cfg : CpuConfig) (h : cfg.Accepted) (program data : ℕ → BitVec 8) (pc : BitVec 32)
    (s : CpuModel cfg) (hreach : Exec.Called step (boot cfg h program data pc) s) :
    (∀ x t, step s = .throw x t → t.regs = s.regs ∧ t.pc = s.pc ∧ t.halted = s.halted ∧
      t.dataMemory = s.dataMemory ∧ t.trace = s.trace) ↔
      ∀ w rs1 rs2 imm, LookaheadFault s w rs1 rs2 imm →
        Isa.read s.isa.mem (Isa.wrap (s.isa.x rs1 + imm)) w.bytes = s.isa.x rs2 % 256 ^ w.bytes := by
  have hs := called_sound (sound_boot h program data pc) hreach
  refine ⟨?_, ?_⟩
  · intro hatomic w rs1 rs2 imm hl
    obtain ⟨insn, e, x, t, hf, he, hthrow, hmem⟩ := hl.thrown hs
    obtain ⟨-, -, -, hkeep, -⟩ := hatomic x t hthrow
    exact (hl.mem_iff hs hf he).1 (hmem ▸ hkeep)
  · intro hsame x t hthrow
    have hthrown := (step_throw (live_of_throw hthrow)).1 hthrow
    obtain ⟨hregs, hpc, hhalted, htrace, -⟩ := hthrown.frame
    refine ⟨hregs, hpc, hhalted, ?_, htrace⟩
    cases hthrown with
    | limit _ => rfl
    | misaligned _ _ => rfl
    | fetch _ _ => rfl
    | switch _ _ _ _ => rfl
    | lookahead hrun hf he hc =>
      obtain ⟨w, rs1, rs2, imm, hl⟩ := lookahead_fault hs hrun hf he hc
      exact (hl.mem_iff hs hf he).2 (hsame w rs1 rs2 imm hl)

/-- a load from the last word of the address space throws, and keeps everything -/
theorem failing_step_atomic_outOfRange :
    let s := boot splitCaches splitCaches_accepted (wordImage [0xffc02083]) 0 0
    ∃ x t, step s = .throw x t ∧ t.regs = s.regs ∧ t.pc = s.pc ∧ t.halted = s.halted ∧
      t.dataMemory = s.dataMemory ∧ t.trace = s.trace := by
  intro s
  have hthrows : (step s).thrown.isSome = true := by decide +kernel
  obtain ⟨⟨x, t⟩, ht⟩ := Option.isSome_iff_exists.1 hthrows
  have hthrow : step s = .throw x t := Outcome.thrown_eq_some.1 ht
  refine ⟨x, t, hthrow, ?_⟩
  apply (failing_step_atomic splitCaches splitCaches_accepted (wordImage [0xffc02083]) 0 0 s .start).2 _ x t hthrow
  -- the word at the pc is no store in the last word of memory
  intro w rs1 rs2 imm hl
  exact absurd hl.last (by decide)

/-- **A failing step that has written memory**: the store is done when the look-ahead throws. -/
theorem write_at_endOfMemory :
    Exec.Called step endOfMemory endOfMemory ∧
      ∃ x t, step endOfMemory = .throw x t ∧ t.dataMemory ≠ endOfMemory.dataMemory := by
  obtain ⟨insn, e, x, t, hf, he, hthrow, hmem⟩ := endOfMemory_fault.thrown endOfMemory_sound
  refine ⟨.start, x, t, hthrow, fun heq => ?_⟩
  have hsame := (endOfMemory_fault.mem_iff endOfMemory_sound hf he).1 (hmem ▸ heq)
  exact absurd hsame (by decide +kernel)

end Rv32im
