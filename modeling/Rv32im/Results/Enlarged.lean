/-
A larger memory and a higher limit change nothing.

What an instruction does in a memory it does in every memory with more bytes behind it, and so does a run to its end.

- `Memory.Extends`: the same bytes, and more behind them. `effect_extends`: an instruction over them.
- `CpuModel.enlarge`: the model with other memories and another limit. `Stepped.enlarged`, `Turns.enlarged`: an
  instruction and a run of it.
- `main_enlarged`: a command line that exits with 0 leaves the same output and the same trace file with more memory and
  a higher limit.
-/
import Rv32im.Results.DisabledCache
import Rv32im.Results.Program

namespace Rv32im

/-! ## Larger memories -/

namespace Memory

/-- the same bytes, and more behind them -/
structure Extends (m m' : Memory) : Prop where
  size : m.size ≤ m'.size
  bytes : ∀ i < m.size, m'.bytes.getD i 0 = m.bytes.getD i 0

section

variable {m m' : Memory} {addr : BitVec 32} {width : ℕ}

theorem extends_zeros {n k : ℕ} (h : n ≤ k) : (zeros n).Extends (zeros k) := by
  have hzero : ∀ j i, (zeros j).bytes.getD i 0 = 0 := by
    intro j i
    simp only [zeros, Array.getD_eq_getD_getElem?, Array.getElem?_replicate]
    split_ifs <;> rfl
  refine ⟨?_, fun i _ => by rw [hzero, hzero]⟩
  simpa only [size, zeros, Array.size_replicate] using h

/-- a byte of an access inside the smaller memory -/
theorem Extends.byte (h : m.Extends m') {k : ℕ} (hrange : addr.toNat + width ≤ m.size) (hk : k < width) :
    m'.byte (addr + BitVec.ofNat 32 k) = m.byte (addr + BitVec.ofNat 32 k) := by
  have hle : (addr + BitVec.ofNat 32 k).toNat ≤ addr.toNat + k := by
    rw [BitVec.toNat_add, BitVec.toNat_ofNat]
    exact (Nat.mod_le _ _).trans (Nat.add_le_add_left (Nat.mod_le _ _) _)
  exact h.bytes _ (by omega)

theorem Extends.setByte (h : m.Extends m') (addr : BitVec 32) (value : BitVec 8) :
    (m.setByte addr value).Extends (m'.setByte addr value) := by
  have hset : ∀ (n : Memory) (i : ℕ), i < n.size →
      (n.setByte addr value).bytes.getD i 0 = if addr.toNat = i then value else n.bytes.getD i 0 := by
    intro n i hi
    simp only [Memory.setByte, Array.getD_eq_getD_getElem?, Array.getElem?_setIfInBounds]
    split_ifs with heq hin
    · rfl
    · exact absurd (heq ▸ hi) hin
    · rfl
  refine ⟨?_, fun i hi => ?_⟩
  · simpa only [setByte_size] using h.size
  · rw [setByte_size] at hi
    rw [hset m i hi, hset m' i (hi.trans_le h.size), h.bytes i hi]

/-- an access is inside, and then only its bytes count -/
theorem checkRange_bind_iff {α : Type} {x : Except Exn α} {v : α} :
    (do m.checkRange addr width; x) = .ok v ↔ addr.toNat + width ≤ m.size ∧ x = .ok v := by
  rw [checkRange_bind]
  split_ifs with h
  · exact iff_of_false (fun hv => by cases hv) fun hv => absurd hv.1 (not_le.2 h)
  · exact (and_iff_right (not_lt.1 h)).symm

/-- **An access inside the smaller memory** reads the same. -/
theorem Extends.read8 (h : m.Extends m') {v : BitVec 8} (hv : m.read8 addr = .ok v) : m'.read8 addr = .ok v := by
  obtain ⟨hrange, hbyte⟩ := checkRange_bind_iff.1 hv
  refine checkRange_bind_iff.2 ⟨hrange.trans h.size, ?_⟩
  have h0 := h.byte hrange (k := 0) (by decide)
  rw [BitVec.add_zero] at h0
  rw [h0]
  exact hbyte

theorem Extends.read16 (h : m.Extends m') {v : BitVec 16} (hv : m.read16 addr = .ok v) : m'.read16 addr = .ok v := by
  obtain ⟨hrange, hbytes⟩ := checkRange_bind_iff.1 hv
  refine checkRange_bind_iff.2 ⟨hrange.trans h.size, ?_⟩
  have h0 := h.byte hrange (k := 0) (by decide)
  have h1 : m'.byte (addr + 1) = m.byte (addr + 1) := h.byte hrange (by decide)
  rw [BitVec.add_zero] at h0
  rw [h0, h1]
  exact hbytes

theorem Extends.read32 (h : m.Extends m') {v : BitVec 32} (hv : m.read32 addr = .ok v) : m'.read32 addr = .ok v := by
  obtain ⟨hrange, hbytes⟩ := checkRange_bind_iff.1 hv
  refine checkRange_bind_iff.2 ⟨hrange.trans h.size, ?_⟩
  have h0 := h.byte hrange (k := 0) (by decide)
  have h1 : m'.byte (addr + 1) = m.byte (addr + 1) := h.byte hrange (by decide)
  have h2 : m'.byte (addr + 2) = m.byte (addr + 2) := h.byte hrange (by decide)
  have h3 : m'.byte (addr + 3) = m.byte (addr + 3) := h.byte hrange (by decide)
  rw [BitVec.add_zero] at h0
  rw [h0, h1, h2, h3]
  exact hbytes

/-- **An access inside the smaller memory** writes the same. -/
theorem Extends.write8 (h : m.Extends m') {value : BitVec 8} {n : Memory} (hn : m.write8 addr value = .ok n) :
    ∃ n', m'.write8 addr value = .ok n' ∧ n.Extends n' := by
  obtain ⟨hrange, hset⟩ := checkRange_bind_iff.1 hn
  obtain rfl := Except.ok.inj hset
  exact ⟨_, checkRange_bind_iff.2 ⟨hrange.trans h.size, rfl⟩, h.setByte _ _⟩

theorem Extends.write16 (h : m.Extends m') {value : BitVec 16} {n : Memory} (hn : m.write16 addr value = .ok n) :
    ∃ n', m'.write16 addr value = .ok n' ∧ n.Extends n' := by
  obtain ⟨hrange, hset⟩ := checkRange_bind_iff.1 hn
  obtain rfl := Except.ok.inj hset
  exact ⟨_, checkRange_bind_iff.2 ⟨hrange.trans h.size, rfl⟩, (h.setByte _ _).setByte _ _⟩

theorem Extends.write32 (h : m.Extends m') {value : BitVec 32} {n : Memory} (hn : m.write32 addr value = .ok n) :
    ∃ n', m'.write32 addr value = .ok n' ∧ n.Extends n' := by
  obtain ⟨hrange, hset⟩ := checkRange_bind_iff.1 hn
  obtain rfl := Except.ok.inj hset
  exact ⟨_, checkRange_bind_iff.2 ⟨hrange.trans h.size, rfl⟩,
    (((h.setByte _ _).setByte _ _).setByte _ _).setByte _ _⟩

end

end Memory

/-! ## An instruction -/

section

variable {m m' : Memory} {r : Regs} {pc insn addr b : BitVec 32}

theorem loadValue_extends (h : m.Extends m') {v : BitVec 32} (hv : loadValue m pc insn addr = .ok v) :
    loadValue m' pc insn addr = .ok v := by
  unfold loadValue at hv ⊢
  split at hv
  · obtain ⟨x, hx, hval⟩ := Exec.except_bind_ok.1 hv
    exact Exec.except_bind_ok.2 ⟨x, h.read8 hx, hval⟩
  · obtain ⟨x, hx, hval⟩ := Exec.except_bind_ok.1 hv
    exact Exec.except_bind_ok.2 ⟨x, h.read16 hx, hval⟩
  · exact h.read32 hv
  · obtain ⟨x, hx, hval⟩ := Exec.except_bind_ok.1 hv
    exact Exec.except_bind_ok.2 ⟨x, h.read8 hx, hval⟩
  · obtain ⟨x, hx, hval⟩ := Exec.except_bind_ok.1 hv
    exact Exec.except_bind_ok.2 ⟨x, h.read16 hx, hval⟩
  · cases hv

theorem storeValue_extends (h : m.Extends m') {n : Memory} (hn : storeValue m pc insn addr b = .ok n) :
    ∃ n', storeValue m' pc insn addr b = .ok n' ∧ n.Extends n' := by
  unfold storeValue at hn ⊢
  split at hn
  · exact h.write8 hn
  · exact h.write16 hn
  · exact h.write32 hn
  · cases hn

/-- **What an instruction does in a memory** it does in a larger one. -/
theorem effect_extends (h : m.Extends m') {e : Effect} (he : effect m r pc insn = .ok e) :
    ∃ n, effect m' r pc insn = .ok { e with mem := n } ∧ e.mem.Extends n := by
  unfold effect at he ⊢
  split at he
  · cases he
    exact ⟨m', rfl, h⟩
  · cases he
    exact ⟨m', rfl, h⟩
  · cases he
    exact ⟨m', rfl, h⟩
  · split_ifs at he ⊢
    · cases he
    · cases he
      exact ⟨m', rfl, h⟩
  · simp only at he ⊢
    split at he
    · cases he
    · cases he
      exact ⟨m', rfl, h⟩
  · obtain ⟨v, hv, rfl⟩ := map_ok he
    exact ⟨m', congrArg (Except.map _) (loadValue_extends h hv), h⟩
  · obtain ⟨n, hn, rfl⟩ := map_ok he
    obtain ⟨n', hn', hext⟩ := storeValue_extends h hn
    exact ⟨n', congrArg (Except.map _) hn', hext⟩
  · obtain ⟨v, hv, rfl⟩ := map_ok he
    exact ⟨m', congrArg (Except.map _) hv, h⟩
  · split_ifs at he ⊢
    · obtain ⟨v, hv, rfl⟩ := map_ok he
      exact ⟨m', congrArg (Except.map _) hv, h⟩
    · obtain ⟨v, hv, rfl⟩ := map_ok he
      exact ⟨m', congrArg (Except.map _) hv, h⟩
  · cases he
    exact ⟨m', rfl, h⟩
  · split_ifs at he ⊢
    · cases he
      exact ⟨m', rfl, h⟩
    · cases he
  · cases he

end

/-! ## The model -/

/-- the configuration with more memory and another limit -/
abbrev CpuConfig.enlarge (cfg : CpuConfig) (size limit : ℕ) : CpuConfig :=
  { cfg with memorySize := size, maxInstructions := limit }

namespace Caches

variable {cfg : CpuConfig} {size limit : ℕ}

def enlarge (size limit : ℕ) (c : Caches cfg) : Caches (cfg.enlarge size limit) :=
  ⟨c.icache, c.dcache, c.ifetch, c.overlap, c.replays, c.outcomes⟩

/-- the same caches -/
def Same (size limit : ℕ) (c : Caches cfg) (c' : Caches (cfg.enlarge size limit)) : Prop := c' = c.enlarge size limit

theorem front_same {α : Type} (m : FetchM {} cfg.icache α) :
    Exec.Related (Same size limit) (front m : M cfg α) (front m : M (cfg.enlarge size limit) α) := by
  refine Exec.Related.zoom (Q := Eq) ?_ ?_ fun f g hfg => ?_
  · intro c c' h
    rw [h]
    rfl
  · intro f g c c' hfg h
    rw [h, hfg]
    rfl
  · rw [hfg]
    exact Exec.Related.refl (fun _ => rfl) m g

theorem access_same (addr : BitVec 32) (isWrite : Bool) :
    Exec.Related (Same size limit) (access addr isWrite : M cfg CacheAccessResult)
      (access addr isWrite : M (cfg.enlarge size limit) CacheAccessResult) := by
  rintro c c' rfl
  exact ⟨rfl, rfl⟩

theorem grant_same (addr x : BitVec 32) : Exec.Related (Same size limit) (grant addr x : M cfg (BitVec 32))
    (grant addr x : M (cfg.enlarge size limit) (BitVec 32)) := by
  rintro c c' rfl
  have haccess : (c.enlarge size limit).dcache.access addr true = c.dcache.access addr true := rfl
  unfold grant
  simp only [haccess]
  split_ifs <;> exact ⟨rfl, rfl⟩

theorem credit_same (look : Except Exn (Option (BitVec 32))) (addr d f : BitVec 32) :
    Exec.Related (Same size limit) (credit look addr d f : M cfg (BitVec 32))
      (credit look addr d f : M (cfg.enlarge size limit) (BitVec 32)) := by
  rintro c c' rfl
  have hhit : ∀ target, (c.enlarge size limit).icache.wouldHit target = c.icache.wouldHit target := fun _ => rfl
  unfold credit
  by_cases hstalls : d ≠ 0 ∧ f ≠ 0
  · simp only [if_pos hstalls]
    cases look with
    | error e => exact ⟨rfl, rfl⟩
    | ok target =>
      cases target with
      | none => exact ⟨rfl, rfl⟩
      | some target =>
        simp only [hhit]
        split_ifs
        · exact ⟨rfl, rfl⟩
        · exact grant_same addr _ c _ rfl
  · simp only [if_neg hstalls]
    exact ⟨rfl, rfl⟩

/-- the cache side does not see the memories and the limit -/
theorem charge_same (k : Kind) (pc nextPc : BitVec 32) (look : Except Exn (Option (BitVec 32))) :
    Exec.Related (Same size limit) (charge k pc nextPc look : M cfg (BitVec 32))
      (charge k pc nextPc look : M (cfg.enlarge size limit) (BitVec 32)) := by
  refine charge_related front_same (fun stalls => ?_) nextPc
  unfold memory
  cases k with
  | load addr => exact (access_same addr false).bind fun a => (front_same _).bind fun f => Exec.related_pure _
  | store addr =>
    exact (access_same addr true).bind fun a => (front_same _).bind fun f =>
      (credit_same look addr a.stallCycles f).bind fun x => Exec.related_pure _
  | _ => exact Exec.related_pure _

/-- a look-ahead that fails has not been read where the charge returns -/
theorem charge_unread {k : Kind} {pc nextPc st : BitVec 32} {x : Exn} {c d : Caches cfg}
    (h : charge k pc nextPc (.error x) c = .ok st d) (look : Except Exn (Option (BitVec 32))) :
    charge k pc nextPc look c = .ok st d := by
  obtain ⟨demand, c₁, hdemand, h⟩ := Exec.bind_ok.1 h
  obtain ⟨stalls, c₂, hmemory, h⟩ := Exec.bind_ok.1 h
  refine Exec.bind_ok.2 ⟨demand, c₁, hdemand, Exec.bind_ok.2 ⟨stalls, c₂, ?_, h⟩⟩
  cases k with
  | store addr =>
    obtain ⟨a, c₃, haccess, hmemory⟩ := Exec.bind_ok.1 hmemory
    obtain ⟨f, c₄, hfront, hmemory⟩ := Exec.bind_ok.1 hmemory
    obtain ⟨y, c₅, hcredit, hpure⟩ := Exec.bind_ok.1 hmemory
    refine Exec.bind_ok.2 ⟨a, c₃, haccess, Exec.bind_ok.2 ⟨f, c₄, hfront, Exec.bind_ok.2 ⟨y, c₅, ?_, hpure⟩⟩⟩
    unfold credit at hcredit ⊢
    split_ifs at hcredit ⊢
    exact hcredit
  | _ => exact hmemory

/-- **The charge of an instruction** is the same where the look-ahead returns the same. -/
theorem charge_enlarged {k : Kind} {pc nextPc st : BitVec 32} {look look' : Except Exn (Option (BitVec 32))}
    {c d : Caches cfg} (h : charge k pc nextPc look c = .ok st d) (hlook : ∀ v, look = .ok v → look' = .ok v) :
    charge k pc nextPc look' (c.enlarge size limit) = .ok st (d.enlarge size limit) := by
  have hsame : charge k pc nextPc look' c = .ok st d := by
    cases look with
    | error x => exact charge_unread h look'
    | ok v => rw [hlook v rfl, h]
  rcases (charge_same k pc nextPc look' c (c.enlarge size limit) rfl).cases with ⟨a, u, v, hu, hv, huv⟩ |
    ⟨e, u, v, hu, -, -⟩ | ⟨hu, -⟩
  · rw [hsame] at hu
    cases hu
    rw [hv, huv]
  · rw [hsame] at hu
    cases hu
  · rw [hsame] at hu
    cases hu

end Caches

namespace CpuModel

variable {cfg : CpuConfig} {s t : CpuModel cfg} {size limit : ℕ} {code data : Memory}

/-- the model with other memories -/
def enlarge (size limit : ℕ) (code data : Memory) (s : CpuModel cfg) : CpuModel (cfg.enlarge size limit) where
  instructionMemory := code
  dataMemory := data
  regs := s.regs
  pc := s.pc
  halted := s.halted
  cacheOverlapCycles := s.cacheOverlapCycles
  dcacheIfstallReplays := s.dcacheIfstallReplays
  stats := s.stats
  timing := s.timing
  icache := s.icache
  dcache := s.dcache
  ifetch := s.ifetch
  trace := s.trace
  dcacheOutcomes := s.dcacheOutcomes

theorem retired_enlarged (s : CpuModel cfg) (insn stalls : BitVec 32) (e : Effect) (c : Caches cfg) (data' : Memory) :
    (s.enlarge size limit code data).retired insn { e with mem := data' } stalls (c.enlarge size limit) =
      (s.retired insn e stalls c).enlarge size limit code data' := rfl

theorem look_enlarged (hcode : s.instructionMemory.Extends code) {v : Option (BitVec 32)} (h : s.look = .ok v) :
    (s.enlarge size limit code data).look = .ok v := by
  have hpc : (s.enlarge size limit code data).pc = s.pc := rfl
  unfold look sequentialNextRedirectTarget at h ⊢
  rw [hpc]
  split_ifs at h ⊢ with haligned
  · exact h
  · obtain ⟨insn, hread, hrest⟩ := Exec.except_bind_ok.1 h
    exact Exec.except_bind_ok.2 ⟨insn, hcode.read32 hread, hrest⟩

/-- **One instruction** does the same with more memory and below a higher limit. -/
theorem Stepped.enlarged {b : Bool} (w : Stepped s b t) (hlimit : cfg.maxInstructions ≤ limit)
    (hcode : s.instructionMemory.Extends code) (hdata : s.dataMemory.Extends data) :
    ∃ data', step (s.enlarge size limit code data) = .ok b (t.enlarge size limit code data') ∧
      t.instructionMemory = s.instructionMemory ∧ t.dataMemory.Extends data' := by
  obtain ⟨data', heffect, hext⟩ := effect_extends hdata w.effect
  refine ⟨data', step_ok.2 (Or.inr ⟨?_⟩), ?_, ?_⟩
  · exact
      { running := ⟨w.running.live, w.running.below.trans_le hlimit, w.running.aligned⟩
        insn := w.insn
        e := { w.e with mem := data' }
        stalls := w.stalls
        c := w.c.enlarge size limit
        fetch := hcode.read32 w.fetch
        effect := heffect
        charge := Caches.charge_enlarged w.charge fun v hv => look_enlarged hcode hv
        more := w.more
        after := by rw [retired_enlarged, ← w.after] }
  · rw [w.after]
    rfl
  · rw [w.after]
    exact hext

/-- the same model over memories that extend its own -/
def Enlarged (size limit : ℕ) (code : Memory) (s : CpuModel cfg) (s' : CpuModel (cfg.enlarge size limit)) : Prop :=
  s.instructionMemory.Extends code ∧ ∃ data, s.dataMemory.Extends data ∧ s' = s.enlarge size limit code data

/-- **A run that returns** returns with more memory and below a higher limit, in the same state over larger memories. -/
theorem run_enlarged (hlimit : cfg.maxInstructions ≤ limit) (h : s.run = .ok () t)
    {s' : CpuModel (cfg.enlarge size limit)} (hs : s.Enlarged size limit code s') :
    ∃ t', s'.run = .ok () t' ∧ t.Enlarged size limit code t' := by
  obtain ⟨n, hturns, hhalted⟩ := run_ok.1 h
  have hturns' : ∃ t', Turns n s' t' ∧ t.Enlarged size limit code t' := by
    refine Exec.Path.simulated ?_ hturns hs
    rintro u _ b v hlive hstep ⟨hcode, data, hdata, rfl⟩
    obtain ⟨w⟩ := step_of_live hlive hstep
    obtain ⟨data', hstep', hkept, hext⟩ := w.enlarged hlimit hcode hdata
    exact ⟨hlive, b, _, hstep', hkept ▸ hcode, data', hext, rfl⟩
  obtain ⟨t', hpath, ht⟩ := hturns'
  refine ⟨t', run_ok.2 ⟨n, hpath, ?_⟩, ht⟩
  obtain ⟨-, data, -, rfl⟩ := ht
  exact hhalted

theorem boot_enlarged (h : cfg.Accepted) {program data program' data' : ℕ → BitVec 8}
    (hcode : (Memory.ofImage cfg.memorySize program).Extends (Memory.ofImage size program'))
    (hdata : (Memory.ofImage cfg.memorySize data).Extends (Memory.ofImage size data')) (pc : BitVec 32) :
    (boot cfg h program data pc).Enlarged size limit (Memory.ofImage size program')
      (boot (cfg.enlarge size limit) ⟨h.icache, h.dcache⟩ program' data' pc) := ⟨hcode, _, hdata, rfl⟩

end CpuModel

/-! ## The program -/

namespace HexLoader

theorem applyItems_extends {base : BitVec 32} {items : List Item} {p q : BitVec 32 × Memory} {m' : Memory}
    (h : items.foldlM (applyItem base) p = .ok q) (hext : p.2.Extends m') :
    ∃ n', items.foldlM (applyItem base) (p.1, m') = .ok (q.1, n') ∧ q.2.Extends n' := by
  induction items generalizing p m' with
  | nil =>
    cases h
    exact ⟨m', rfl, hext⟩
  | cons item items ih =>
    rw [List.foldlM_cons] at h
    obtain ⟨r, hitem, hrest⟩ := Exec.except_bind_ok.1 h
    have hitem' : ∃ r', applyItem base (p.1, m') item = .ok (r.1, r') ∧ r.2.Extends r' := by
      cases item with
      | directive k =>
        cases hitem
        exact ⟨m', rfl, hext⟩
      | word n =>
        obtain ⟨m, hwrite, rfl⟩ := applyItem_word.1 hitem
        obtain ⟨n', hwrite', hext'⟩ := hext.write32 hwrite
        exact ⟨n', applyItem_word.2 ⟨n', hwrite', rfl⟩, hext'⟩
    obtain ⟨r', hr', hext'⟩ := hitem'
    obtain ⟨n', hn', hlast⟩ := ih hrest hext'
    refine ⟨n', ?_, hlast⟩
    rw [List.foldlM_cons]
    exact Exec.except_bind_ok.2 ⟨_, hr', hn'⟩

/-- **A file that fits into a memory** fits into a larger one. -/
theorem loadHexWords_extends {path : String} {file : Option (List Char)} {base : BitVec 32} {m n m' : Memory}
    (h : loadHexWords path file base m = .ok () n) (hext : m.Extends m') :
    ∃ n', loadHexWords path file base m' = .ok () n' ∧ n.Extends n' := by
  cases file with
  | none => cases h
  | some text =>
    obtain ⟨htokens, addr, hfold⟩ := loadHexWords_ok.1 h
    obtain ⟨n', hfold', hn'⟩ := applyItems_extends hfold hext
    exact ⟨n', loadHexWords_ok.2 ⟨htokens, addr, hfold'⟩, hn'⟩

end HexLoader

/-- the options with more memory and another limit -/
abbrev Options.enlarge (o : Options) (size limit : ℕ) : Options := { o with config := o.config.enlarge size limit }

open CpuModel

namespace Main

variable {w : World} {fl : Floats} {program : String} {o : Options} {code data : Memory} {e : Ended} {size limit : ℕ}

/-- there is a memory of `size` bytes for the instructions and one for the data -/
def Room (w : World) (size : ℕ) : Prop :=
  size < 2 ^ 63 ∧ w.available .instructionMemory size = true ∧ w.available .dataMemory size = true

theorem Allocated.enlarged (h : Allocated w o.config) (hroom : Room w size) (limit : ℕ) :
    Allocated w (o.enlarge size limit).config := by
  obtain ⟨hmax, hcode, hdata⟩ := hroom
  have hfits : size ≤ (2 ^ 63 - 1) / 1 := by omega
  intro v
  cases v with
  | instructionMemory => exact ⟨hfits, hcode⟩
  | dataMemory => exact ⟨hfits, hdata⟩
  | icacheLines => exact h .icacheLines
  | dcacheLines => exact h .dcacheLines

theorem Loaded.enlarged (h : Loaded w program o code data) (hsize : o.config.memorySize ≤ size) (hroom : Room w size)
    (limit : ℕ) :
    ∃ code' data', Loaded w program (o.enlarge size limit) code' data' ∧ code.Extends code' ∧ data.Extends data' := by
  have hzeros : (Memory.zeros o.config.memorySize).Extends (Memory.zeros size) := Memory.extends_zeros hsize
  obtain ⟨code', hcode, hextc⟩ := HexLoader.loadHexWords_extends h.code hzeros
  have hdata : ∃ data', loadData w (o.enlarge size limit) (Memory.zeros size) = .ok () data' ∧ data.Extends data' := by
    have hload := h.data
    unfold loadData at hload ⊢
    split_ifs at hload ⊢
    · cases hload
      exact ⟨_, rfl, hzeros⟩
    · exact HexLoader.loadHexWords_extends hload hzeros
  obtain ⟨data', hdata, hextd⟩ := hdata
  exact ⟨code', data', ⟨⟨h.accepted.icache, h.accepted.dcache⟩, h.allocated.enlarged hroom limit, h.opened, hcode,
    hdata⟩, hextc, hextd⟩

/-- **A program that exits with 0** does the same with more memory and a higher limit. -/
theorem simulate_enlarged (h : simulate w fl program o = some e) (hcode : e.code = 0)
    (hsize : o.config.memorySize ≤ size) (hroom : Room w size) (hlimit : o.config.maxInstructions ≤ limit) :
    simulate w fl program (o.enlarge size limit) = some e := by
  obtain ⟨code, data, hload, t, hrun, rfl⟩ := simulate_zero h hcode
  obtain ⟨code', data', hload', hextc, hextd⟩ := hload.enlarged hsize hroom limit
  have himages := hload'.images
  rw [← hload.images.1, ← himages.1] at hextc
  rw [← hload.images.2, ← himages.2] at hextd
  obtain ⟨t', hrun', -, data'', -, rfl⟩ := run_enlarged hlimit hrun
    (boot_enlarged hload.accepted hextc hextd o.config.resetPc)
  rw [simulate_loaded hload']
  have hreset : (o.enlarge size limit).config.resetPc = o.config.resetPc := rfl
  rw [hreset, hrun']
  rfl

end Main

open Main

end Rv32im
