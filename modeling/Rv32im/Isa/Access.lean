/-
The loads and stores of the model, as numbers.

- `Memory.image`: the bytes of a memory.
- `loadValue_eq`, `storeValue_eq`: a load or a store returns exactly where its encoding decodes and its bytes are inside
  memory, and then it reads or writes the image.
-/
import Rv32im.Isa.Values

namespace Rv32im

namespace Memory

/-- the bytes of a memory, as numbers -/
def image (m : Memory) (a : ℕ) : ℕ := (m.bytes.getD a 0).toNat

theorem image_lt (m : Memory) (a : ℕ) : m.image a < 256 := BitVec.isLt _

theorem image_setByte (m : Memory) {addr : BitVec 32} (h : addr.toNat < m.size) (value : BitVec 8) :
    (m.setByte addr value).image = Function.update m.image addr.toNat value.toNat := by
  funext a
  unfold image setByte
  rw [Array.getD_eq_getD_getElem?, Array.getElem?_setIfInBounds]
  rcases eq_or_ne addr.toNat a with rfl | hne
  · rw [if_pos rfl, if_pos (show addr.toNat < m.bytes.size from h), Function.update_self]
    rfl
  · rw [if_neg hne, Function.update_of_ne hne.symm, Array.getD_eq_getD_getElem?]

/-- the bytes determine a memory of a given size -/
theorem eq_of_image {m m' : Memory} (hs : m.size = m'.size) (hi : m.image = m'.image) : m = m' := by
  obtain ⟨b⟩ := m
  obtain ⟨b'⟩ := m'
  refine congrArg Memory.mk (Array.ext hs fun i h h' => BitVec.eq_of_toNat_eq ?_)
  have hbyte := congrFun hi i
  unfold image at hbyte
  rwa [Array.getD_eq_getD_getElem?, Array.getD_eq_getD_getElem?, Array.getElem?_eq_getElem h,
    Array.getElem?_eq_getElem h'] at hbyte

end Memory

/-- the address of a later byte of a checked access -/
theorem offset_toNat {addr : BitVec 32} {k : ℕ} (h : addr.toNat + k < 2 ^ 32) :
    (addr + BitVec.ofNat 32 k).toNat = addr.toNat + k := by
  rw [BitVec.toNat_add, BitVec.toNat_ofNat]
  omega

/-! ## Loads -/

/-- two fields, the high one moved behind the low one -/
theorem concat_toNat {n k : ℕ} {lo hi : BitVec n} (hlo : lo.toNat < 2 ^ k) (hhi : hi.toNat * 2 ^ k < 2 ^ n) :
    (lo ||| (hi <<< k)).toNat = lo.toNat + hi.toNat * 2 ^ k := by
  rw [BitVec.toNat_or, BitVec.toNat_shiftLeft, Nat.shiftLeft_eq, Nat.mod_eq_of_lt hhi, Nat.or_comm, Nat.mul_comm,
    ← Nat.two_pow_add_eq_or_of_lt hlo, Nat.add_comm]

theorem setWidth_toNat {n k : ℕ} (v : BitVec n) (h : n ≤ k) : (v.setWidth k).toNat = v.toNat := by
  rw [BitVec.toNat_setWidth]
  exact Nat.mod_eq_of_lt (v.isLt.trans_le (Nat.pow_le_pow_right (by decide) h))

section Loads

variable (m : Memory) (addr : BitVec 32)

/-- a byte of a checked access, as wide as its word -/
theorem byte_toNat {k n : ℕ} (hn : 8 ≤ n) (h : addr.toNat + k < 2 ^ 32) :
    ((m.byte (addr + BitVec.ofNat 32 k)).setWidth n).toNat = m.image (addr.toNat + k) := by
  rw [setWidth_toNat _ hn, ← offset_toNat h]
  rfl

theorem read8_eq :
    (m.read8 addr).toOption.map BitVec.toNat =
      if addr.toNat + 1 ≤ m.size then some (Isa.read m.image addr.toNat 1) else none := by
  unfold Memory.read8
  rw [Memory.checkRange_bind]
  split_ifs with h1 h2 h2
  · omega
  · rfl
  · rfl
  · omega

theorem read16_eq (hsize : m.size ≤ 2 ^ 32) :
    (m.read16 addr).toOption.map BitVec.toNat =
      if addr.toNat + 2 ≤ m.size then some (Isa.read m.image addr.toNat 2) else none := by
  unfold Memory.read16
  rw [Memory.checkRange_bind]
  split_ifs with h1 h2 h2
  · omega
  · rfl
  · have e₀ : ((m.byte addr).setWidth 16).toNat = m.image addr.toNat := setWidth_toNat _ (by decide)
    have e₁ : ((m.byte (addr + 1)).setWidth 16).toNat = m.image (addr.toNat + 1) :=
      byte_toNat m addr (k := 1) (by decide) (by omega)
    have b₀ := m.image_lt addr.toNat
    have b₁ := m.image_lt (addr.toNat + 1)
    refine congrArg some ?_
    rw [concat_toNat (by omega) (by omega), e₀, e₁]
    simp only [Isa.read]
    omega
  · omega

theorem read32_eq_read (hsize : addr.toNat + 4 ≤ m.size → addr.toNat + 4 ≤ 2 ^ 32) :
    (m.read32 addr).toOption.map BitVec.toNat =
      if addr.toNat + 4 ≤ m.size then some (Isa.read m.image addr.toNat 4) else none := by
  rw [Memory.read32_eq]
  split_ifs with h1 h2 h2
  · omega
  · rfl
  · have e₀ : ((m.byte addr).setWidth 32).toNat = m.image addr.toNat := setWidth_toNat _ (by decide)
    have e₁ : ((m.byte (addr + 1)).setWidth 32).toNat = m.image (addr.toNat + 1) :=
      byte_toNat m addr (k := 1) (by decide) (by omega)
    have e₂ : ((m.byte (addr + 2)).setWidth 32).toNat = m.image (addr.toNat + 2) :=
      byte_toNat m addr (k := 2) (by decide) (by omega)
    have e₃ : ((m.byte (addr + 3)).setWidth 32).toNat = m.image (addr.toNat + 3) :=
      byte_toNat m addr (k := 3) (by decide) (by omega)
    have b₀ := m.image_lt addr.toNat
    have b₁ := m.image_lt (addr.toNat + 1)
    have b₂ := m.image_lt (addr.toNat + 2)
    have b₃ := m.image_lt (addr.toNat + 3)
    refine congrArg some ?_
    generalize (m.byte addr).setWidth 32 = x₀ at e₀ ⊢
    generalize (m.byte (addr + 1)).setWidth 32 = x₁ at e₁ ⊢
    have c₁ : (x₀ ||| (x₁ <<< 8)).toNat = x₀.toNat + x₁.toNat * 2 ^ 8 := concat_toNat (by omega) (by omega)
    generalize (m.byte (addr + 2)).setWidth 32 = x₂ at e₂ ⊢
    have c₂ : (x₀ ||| (x₁ <<< 8) ||| (x₂ <<< 16)).toNat = x₀.toNat + x₁.toNat * 2 ^ 8 + x₂.toNat * 2 ^ 16 := by
      rw [← c₁]
      exact concat_toNat (by omega) (by omega)
    rw [concat_toNat (by omega) (by omega), c₂, e₀, e₁, e₂, e₃]
    simp only [Isa.read, Nat.add_assoc, Nat.reduceAdd]
    omega
  · omega

/-- a word that was fetched -/
theorem read32_toNat {m : Memory} {addr v : BitVec 32} (hfits : addr.toNat + 4 ≤ 2 ^ 32) (h : m.read32 addr = .ok v) :
    v.toNat = Isa.read m.image addr.toNat 4 := by
  have hin := Memory.read32_ok_bound h
  have heq := read32_eq_read m addr fun _ => hfits
  rw [h, if_pos hin] at heq
  exact Option.some.inj heq

/-- a function of a read value, on numbers -/
theorem map_toNat {n : ℕ} {f : BitVec n → BitVec 32} {g : ℕ → ℕ} (h : ∀ v, (f v).toNat = g v.toNat)
    (x : Except Exn (BitVec n)) :
    (do return f (← x) : Except Exn (BitVec 32)).toOption.map BitVec.toNat = (x.toOption.map BitVec.toNat).map g := by
  cases x with
  | error e => rfl
  | ok v => exact congrArg some (h v)

theorem signExtend_setWidth {n : ℕ} (h0 : 0 < n) (h : n ≤ 32) (v : BitVec n) :
    (signExtend (v.setWidth 32) n).toNat = Isa.wrap (Isa.signed n v.toNat) := by
  rw [signExtend_toNat _ h0 h, setWidth_toNat v h, Nat.mod_eq_of_lt v.isLt]

/-- a load returns where its encoding decodes and its bytes are inside memory -/
theorem loadValue_eq (pc insn : BitVec 32) (hsize : m.size ≤ 2 ^ 32) :
    (loadValue m pc insn addr).toOption.map BitVec.toNat = (Isa.decodeLoad (funct3 insn)).bind fun p =>
      if addr.toNat + p.1.bytes ≤ m.size then
        some (if p.2 then Isa.wrap (Isa.signed (8 * p.1.bytes) (Isa.read m.image addr.toNat p.1.bytes))
          else Isa.read m.image addr.toNat p.1.bytes)
      else none := by
  have hlt₃ := funct3_lt insn
  have e₁ := read8_eq m addr
  have e₂ := read16_eq m addr hsize
  have e₄ := read32_eq_read m addr fun h => h.trans hsize
  have signed₁ := map_toNat (f := fun v : BitVec 8 => signExtend (v.setWidth 32) 8)
    (g := fun v => Isa.wrap (Isa.signed 8 v)) (signExtend_setWidth (by decide) (by decide)) (m.read8 addr)
  have signed₂ := map_toNat (f := fun v : BitVec 16 => signExtend (v.setWidth 32) 16)
    (g := fun v => Isa.wrap (Isa.signed 16 v)) (signExtend_setWidth (by decide) (by decide)) (m.read16 addr)
  have plain₁ := map_toNat (f := fun v : BitVec 8 => v.setWidth 32) (g := id)
    (fun v => setWidth_toNat v (by decide)) (m.read8 addr)
  have plain₂ := map_toNat (f := fun v : BitVec 16 => v.setWidth 32) (g := id)
    (fun v => setWidth_toNat v (by decide)) (m.read16 addr)
  rw [e₁, apply_ite (Option.map _)] at signed₁ plain₁
  rw [e₂, apply_ite (Option.map _)] at signed₂ plain₂
  unfold loadValue
  generalize funct3 insn = f₃ at hlt₃ ⊢
  -- LB, LH, LW, none, LBU, LHU, and two more without an encoding
  interval_cases f₃
  · exact signed₁
  · exact signed₂
  · have hlt : Isa.read m.image addr.toNat 4 < 2 ^ 32 := Isa.read_lt m.image_lt addr.toNat 4
    refine e₄.trans ?_
    change _ = if addr.toNat + 4 ≤ m.size then
      some (Isa.wrap (Isa.signed 32 (Isa.read m.image addr.toNat 4))) else none
    rw [Isa.wrap_signed hlt]
  · rfl
  · exact plain₁
  · exact plain₂
  · rfl
  · rfl

end Loads

/-! ## Stores -/

/-- the lowest byte of a word -/
theorem lowByte_toNat {n : ℕ} (v : BitVec n) (h : 8 ≤ n) :
    ((v &&& BitVec.ofNat n 0xff).setWidth 8).toNat = v.toNat % 256 := by
  have hle : (2 : ℕ) ^ 8 ≤ 2 ^ n := Nat.pow_le_pow_right (by decide) h
  have hmask : 0xff % 2 ^ n = 0xff := Nat.mod_eq_of_lt (by omega)
  rw [BitVec.toNat_setWidth, BitVec.toNat_and, BitVec.toNat_ofNat, hmask]
  exact (congrArg (· % 2 ^ 8) (Nat.and_two_pow_sub_one_eq_mod v.toNat 8)).trans (Nat.mod_mod _ _)

/-- a byte behind the lowest one -/
theorem shiftByte_toNat {n : ℕ} (v : BitVec n) (k : ℕ) (h : 8 ≤ n) :
    (((v >>> k) &&& BitVec.ofNat n 0xff).setWidth 8).toNat = v.toNat / 2 ^ k % 256 := by
  rw [lowByte_toNat _ h, BitVec.toNat_ushiftRight, Nat.shiftRight_eq_div_pow]

section Stores

variable (m : Memory) (addr b : BitVec 32)

/-- writing a later byte of a checked access -/
theorem image_setByte_offset {k : ℕ} (hrange : addr.toNat + k < m.size) (hsize : m.size ≤ 2 ^ 32) (value : BitVec 8) :
    (m.setByte (addr + BitVec.ofNat 32 k) value).image =
      Function.update m.image (addr.toNat + k) value.toNat := by
  have hoff : (addr + BitVec.ofNat 32 k).toNat = addr.toNat + k := offset_toNat (by omega)
  rw [Memory.image_setByte m (hoff ▸ hrange), hoff]

theorem write8_eq :
    (m.write8 addr (b.setWidth 8)).toOption.map Memory.image =
      if addr.toNat + 1 ≤ m.size then some (Isa.write m.image addr.toNat b.toNat 1) else none := by
  unfold Memory.write8
  rw [Memory.checkRange_bind]
  split_ifs with h1 h2 h2
  · omega
  · rfl
  · refine congrArg some ?_
    rw [Memory.image_setByte m (by omega), BitVec.toNat_setWidth]
    rfl
  · omega

theorem write16_eq (hsize : m.size ≤ 2 ^ 32) :
    (m.write16 addr (b.setWidth 16)).toOption.map Memory.image =
      if addr.toNat + 2 ≤ m.size then some (Isa.write m.image addr.toNat b.toNat 2) else none := by
  unfold Memory.write16
  rw [Memory.checkRange_bind]
  split_ifs with h1 h2 h2
  · omega
  · rfl
  · have hw : (b.setWidth 16).toNat = b.toNat % 2 ^ 16 := BitVec.toNat_setWidth 16 b
    have v₀ : ((b.setWidth 16 &&& 0xff#16).setWidth 8).toNat = b.toNat % 256 := by
      rw [lowByte_toNat _ (by decide), hw]
      omega
    have v₁ : ((b.setWidth 16 >>> 8 &&& 0xff#16).setWidth 8).toNat = b.toNat / 256 % 256 := by
      rw [shiftByte_toNat _ _ (by decide), hw]
      omega
    have hs : ∀ v, (m.setByte addr v).size = m.size := fun v => Memory.setByte_size m addr v
    apply congrArg some
    refine (image_setByte_offset _ addr (k := 1) (by rw [hs]; omega) (by rw [hs]; omega) _).trans ?_
    rw [Memory.image_setByte m (by omega), v₀, v₁]
    rfl
  · omega

theorem write32_eq (hsize : m.size ≤ 2 ^ 32) :
    (m.write32 addr b).toOption.map Memory.image =
      if addr.toNat + 4 ≤ m.size then some (Isa.write m.image addr.toNat b.toNat 4) else none := by
  unfold Memory.write32
  rw [Memory.checkRange_bind]
  split_ifs with h1 h2 h2
  · omega
  · rfl
  · have v₀ := lowByte_toNat b (by decide)
    have v₁ := shiftByte_toNat b 8 (by decide)
    have v₂ : ((b >>> 16 &&& 0xff#32).setWidth 8).toNat = b.toNat / 256 / 256 % 256 := by
      rw [shiftByte_toNat b 16 (by decide)]
      omega
    have v₃ : ((b >>> 24 &&& 0xff#32).setWidth 8).toNat = b.toNat / 256 / 256 / 256 % 256 := by
      rw [shiftByte_toNat b 24 (by decide)]
      omega
    have hs : ∀ (m : Memory) a v, (m.setByte a v).size = m.size := Memory.setByte_size
    apply congrArg some
    have hbyte : ∀ (m' : Memory) v, m'.size = m.size →
        (m'.setByte (addr + 1) v).image = Function.update m'.image (addr.toNat + 1) v.toNat ∧
        (m'.setByte (addr + 2) v).image = Function.update m'.image (addr.toNat + 2) v.toNat ∧
        (m'.setByte (addr + 3) v).image = Function.update m'.image (addr.toNat + 3) v.toNat := by
      intro m' v hm
      exact ⟨image_setByte_offset m' addr (k := 1) (by omega) (by omega) v,
        image_setByte_offset m' addr (k := 2) (by omega) (by omega) v,
        image_setByte_offset m' addr (k := 3) (by omega) (by omega) v⟩
    rw [(hbyte _ _ (by simp only [hs])).2.2, (hbyte _ _ (by simp only [hs])).2.1, (hbyte _ _ (hs m addr _)).1,
      Memory.image_setByte m (by omega), v₀, v₁, v₂, v₃]
    rfl
  · omega

/-- a store returns where its encoding decodes and its bytes are inside memory -/
theorem storeValue_eq (pc insn : BitVec 32) (hsize : m.size ≤ 2 ^ 32) :
    (storeValue m pc insn addr b).toOption.map Memory.image = (Isa.decodeStore (funct3 insn)).bind fun w =>
      if addr.toNat + w.bytes ≤ m.size then some (Isa.write m.image addr.toNat b.toNat w.bytes) else none := by
  have hlt₃ := funct3_lt insn
  unfold storeValue
  generalize funct3 insn = f₃ at hlt₃ ⊢
  -- SB, SH, SW, and five without an encoding
  interval_cases f₃
  · exact write8_eq m addr b
  · exact write16_eq m addr b hsize
  · exact write32_eq m addr b hsize
  all_goals rfl

end Stores

end Rv32im
