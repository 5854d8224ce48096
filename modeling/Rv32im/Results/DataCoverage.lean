/-
Which of the words that a load or store touches are in the D-cache behind it.

Data memory takes any address and touches as many bytes as the instruction is wide. The D-cache is accessed once, at the
address of the first byte. An access that crosses into the next word leaves that word as the cache had it.

- `Stepped.wouldHit_after`: what the D-cache holds after a load or store.
- `block_byte`, `idx_last`: the words of an access are that of its first and that of its last byte, and they have
  different indices if there are two indices.
- `data_coverage_iff`: every byte is covered exactly when the access stays in one word, or the next word was in a cache of
  more than one line before.
-/
import Rv32im.Results.Credit

namespace Rv32im

/-- the bytes that a load or store touches, by its `funct3` -/
def accessWidth (funct3 : ℕ) : ℕ :=
  match funct3 with
  | 0x0 | 0x4 => 1
  | 0x1 | 0x5 => 2
  | _ => 4

namespace CpuModel

variable {cfg : CpuConfig}

/-- the address and width of the data access of an instruction -/
def dataAccess (s : CpuModel cfg) (insn : BitVec 32) : Option (BitVec 32 × ℕ) :=
  match opcode insn with
  | 0x03 => some (s.regs (rs1 insn) + immI insn, accessWidth (funct3 insn))
  | 0x23 => some (s.regs (rs1 insn) + immS insn, accessWidth (funct3 insn))
  | _ => none

/-- every byte of an access would hit the D-cache -/
def Covers (s : CpuModel cfg) (a : BitVec 32) (w : ℕ) : Prop :=
  ∀ i < w, s.dcache.wouldHit (a + BitVec.ofNat 32 i) = true

instance (s : CpuModel cfg) (a : BitVec 32) (w : ℕ) : Decidable (s.Covers a w) :=
  inferInstanceAs (Decidable (∀ i < w, _))

/-! ## The words of an access -/

theorem accessWidth_cases (f : ℕ) : accessWidth f = 1 ∨ accessWidth f = 2 ∨ accessWidth f = 4 := by
  unfold accessWidth
  split
  · exact .inl rfl
  · exact .inl rfl
  · exact .inr (.inl rfl)
  · exact .inr (.inl rfl)
  · exact .inr (.inr rfl)

theorem dataAccess_width {s : CpuModel cfg} {insn a : BitVec 32} {w : ℕ} (h : s.dataAccess insn = some (a, w)) :
    1 ≤ w ∧ w ≤ 4 := by
  have hwidth := accessWidth_cases (funct3 insn)
  unfold dataAccess at h
  split at h
  · cases h
    omega
  · cases h
    omega
  · cases h

/-- a byte of an access, modulo 2^32 -/
theorem byte_addr (a : BitVec 32) (i : ℕ) : (a + BitVec.ofNat 32 i).toNat = (a.toNat + i) % 2 ^ 32 := by
  rw [BitVec.toNat_add, BitVec.toNat_ofNat]
  omega

/-- a byte of an access lies in the word of the first or in that of the last byte -/
theorem block_byte (a : BitVec 32) {i w : ℕ} (hi : i < w) (hw : w ≤ 4) :
    block (a + BitVec.ofNat 32 i) = block a ∨ block (a + BitVec.ofNat 32 i) = block (a + BitVec.ofNat 32 (w - 1)) := by
  have hlt := a.isLt
  unfold block
  rw [byte_addr, byte_addr]
  omega

theorem block_last (a : BitVec 32) {w : ℕ} (hpos : 1 ≤ w) (hw : w ≤ 4) :
    block (a + BitVec.ofNat 32 (w - 1)) = block a ↔ a.toNat % 4 + w ≤ 4 := by
  have hlt := a.isLt
  unfold block
  rw [byte_addr]
  omega

/-- the two words of an access have different indices, since one word address is even and the other is odd -/
theorem idx_last {config : CacheConfig} (h : config.Accepted) (hlines : config.lines ≠ 1) (a : BitVec 32) {w : ℕ}
    (hw : w ≤ 4) (hcross : 4 < a.toNat % 4 + w) :
    config.idx (block (a + BitVec.ofNat 32 (w - 1))) ≠ config.idx (block a) := by
  have hlt := a.isLt
  obtain ⟨k, hk⟩ := isPowerOfTwo_iff.1 h.lines
  have heven : 2 ∣ config.lines := by
    rw [hk]
    refine dvd_pow_self 2 ?_
    rintro rfl
    exact hlines hk
  have hparity : ∀ n, config.idx n % 2 = n % 2 := fun n => Nat.mod_mod_of_dvd n heven
  intro heq
  have hsame : block (a + BitVec.ofNat 32 (w - 1)) % 2 = block a % 2 := by rw [← hparity, heq, hparity]
  unfold block at hsame
  rw [byte_addr] at hsame
  omega

/-! ## The D-cache behind a load or store -/

/-- the kind of a load or store -/
theorem effect_dataAccess {s : CpuModel cfg} {insn a : BitVec 32} {w : ℕ} {e : Effect}
    (h : s.dataAccess insn = some (a, w)) (he : effect s.dataMemory s.regs s.pc insn = .ok e) :
    ∃ wr, e.kind.mem = some (a, wr) := by
  unfold dataAccess at h
  split at h
  · rename_i hop
    cases h
    simp only [effect, hop] at he
    obtain ⟨v, -, rfl⟩ := map_ok he
    exact ⟨false, rfl⟩
  · rename_i hop
    cases h
    simp only [effect, hop] at he
    obtain ⟨m, -, rfl⟩ := map_ok he
    exact ⟨true, rfl⟩
  · cases h

/-- what the D-cache holds after a load or store: the word of the first byte, and what does not share its index -/
theorem Stepped.wouldHit_after {s t : CpuModel cfg} {b : Bool} (w : Stepped s b t) (hen : cfg.dcache.enabled = true)
    {a : BitVec 32} {n : ℕ} (h : s.dataAccess w.insn = some (a, n)) (x : BitVec 32) :
    t.dcache.wouldHit x = true ↔
      block x = block a ∨ (cfg.dcache.idx (block x) ≠ cfg.dcache.idx (block a) ∧ s.dcache.wouldHit x = true) := by
  obtain ⟨wr, hmem⟩ := effect_dataAccess h w.effect
  obtain ⟨r, -, -, hcontents, -⟩ := w.dcache
  rw [DirectMappedCacheModel.wouldHit_enabled hen, DirectMappedCacheModel.wouldHit_enabled hen, hcontents, hmem]
  simp only [CacheConfig.store, if_pos hen]
  exact DirectMapped.resident_access

end CpuModel

/-- **Which data accesses are covered.** After a load or store every byte that it touched would hit the D-cache if and
only if the access stays in one word, or the cache has more than one line and the word of the last byte was in it
before. -/
theorem data_coverage_iff (cfg : CpuConfig) (hen : cfg.dcache.enabled = true) (s t : CpuModel cfg) (b : Bool)
    (insn a : BitVec 32) (w : ℕ) (hlive : s.halted = false) (hs : CpuModel.step s = .ok b t)
    (hf : s.instructionMemory.read32 s.pc = .ok insn) (ha : s.dataAccess insn = some (a, w)) :
    t.Covers a w ↔ a.toNat % 4 + w ≤ 4 ∨
      (cfg.dcache.lines ≠ 1 ∧ s.dcache.wouldHit (a + BitVec.ofNat 32 (w - 1)) = true) := by
  obtain ⟨step⟩ := CpuModel.step_of_live hlive hs
  have hinsn : step.insn = insn := Except.ok.inj (step.fetch.symm.trans hf)
  obtain ⟨hpos, hle⟩ := CpuModel.dataAccess_width ha
  have hafter := step.wouldHit_after hen (hinsn ▸ ha)
  -- the word of the first byte is always there, so the word of the last byte decides
  have hlast : t.Covers a w ↔ t.dcache.wouldHit (a + BitVec.ofNat 32 (w - 1)) = true := by
    refine ⟨fun h => h (w - 1) (by omega), fun h i hi => ?_⟩
    rcases CpuModel.block_byte a hi hle with hfirst | hsecond
    · exact (hafter _).2 (.inl hfirst)
    · rw [DirectMappedCacheModel.wouldHit_enabled hen] at h ⊢
      rw [hsecond]
      exact h
  rw [hlast, hafter, CpuModel.block_last a hpos hle]
  refine or_congr_right' fun hcross => ?_
  refine ⟨?_, ?_⟩
  · intro ⟨hidx, hhit⟩
    refine ⟨fun hone => hidx ?_, hhit⟩
    unfold CacheConfig.idx
    rw [hone, Nat.mod_one, Nat.mod_one]
  · intro ⟨hlines, hhit⟩
    exact ⟨CpuModel.idx_last s.dcache.accepted hlines a hle (by omega), hhit⟩

/-- a program of one word load from an address below 2^11, ready to run -/
def oneLoad (addr : BitVec 32) : CpuModel splitCaches :=
  boot splitCaches splitCaches_accepted (wordImage [(addr <<< 20) ||| 0x2083]) 0 0

/-- the load of an aligned word -/
theorem data_coverage_aligned : ∃ t, CpuModel.step (oneLoad 4) = .ok true t ∧ t.Covers 4 4 := by
  obtain ⟨t, ht, hmore⟩ := (Option.any_eq_true _ _).1 (by decide +kernel :
    (Exec.iter CpuModel.step 1 (oneLoad 4)).any (fun t => t.halted = false) = true)
  obtain ⟨s, b, hs, hstep⟩ := Exec.iter_snoc.1 ht
  cases hs
  obtain ⟨w⟩ := CpuModel.step_of_live rfl hstep
  have hb : b = true := by
    rw [w.more, of_decide_eq_true hmore]
    rfl
  subst hb
  have hcovers := (data_coverage_iff splitCaches rfl (oneLoad 4) t true 0x00402083 4 4 rfl hstep (by decide +kernel)
    (by decide +kernel)).2 (.inl (by decide))
  exact ⟨t, hstep, hcovers⟩

/-- the load of a word across two words leaves the second one out of the cache -/
theorem data_coverage_split : ∃ t b, CpuModel.step (oneLoad 2) = .ok b t ∧ (oneLoad 2).halted = false ∧
    (oneLoad 2).instructionMemory.read32 (oneLoad 2).pc = .ok 0x00202083 ∧
    (oneLoad 2).dataAccess 0x00202083 = some (2, 4) ∧ ¬ t.Covers 2 4 := by
  obtain ⟨t, ht, hmiss⟩ := (Option.any_eq_true _ _).1 (by decide +kernel :
    (Exec.iter CpuModel.step 1 (oneLoad 2)).any (fun t => ¬ t.Covers 2 4) = true)
  obtain ⟨s, b, hs, hstep⟩ := Exec.iter_snoc.1 ht
  cases hs
  exact ⟨t, b, hstep, rfl, by decide +kernel, by decide +kernel, of_decide_eq_true hmiss⟩

end Rv32im
