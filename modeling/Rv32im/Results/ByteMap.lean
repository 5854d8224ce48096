/-
The memory as a little-endian byte map.

A sequence of reads and writes of 8, 16 and 32 bits starts from zeroed memory. A call that throws leaves the memory as it
is, since the range is checked before the first byte is written.

- `run_throws`, `run_read`, `run_write`: one call on any memory.
- `image_after`: each byte is what the last write over it put there.
- `memory_refines`: so every call of a sequence reads or writes the byte map, or throws.
-/
import Rv32im.Core.Latest
import Rv32im.Isa.Access

namespace Rv32im

namespace ByteMap

inductive Call where
  | read8 (addr : BitVec 32)
  | read16 (addr : BitVec 32)
  | read32 (addr : BitVec 32)
  | write8 (addr : BitVec 32) (value : BitVec 8)
  | write16 (addr : BitVec 32) (value : BitVec 16)
  | write32 (addr : BitVec 32) (value : BitVec 32)
deriving DecidableEq, Repr

/-- a write that throws writes nothing -/
def wrote (m : Memory) : Except Exn Memory → Except Exn (Option ℕ) × Memory
  | .ok m' => (.ok none, m')
  | .error e => (.error e, m)

namespace Call

/-- what a call returns or throws, and the memory behind it -/
def run (m : Memory) : Call → Except Exn (Option ℕ) × Memory
  | .read8 addr => ((m.read8 addr).map fun v => some v.toNat, m)
  | .read16 addr => ((m.read16 addr).map fun v => some v.toNat, m)
  | .read32 addr => ((m.read32 addr).map fun v => some v.toNat, m)
  | .write8 addr value => wrote m (m.write8 addr value)
  | .write16 addr value => wrote m (m.write16 addr value)
  | .write32 addr value => wrote m (m.write32 addr value)

def addr : Call → BitVec 32
  | .read8 addr | .read16 addr | .read32 addr => addr
  | .write8 addr _ | .write16 addr _ | .write32 addr _ => addr

def width : Call → ℕ
  | .read8 _ | .write8 _ _ => 1
  | .read16 _ | .write16 _ _ => 2
  | .read32 _ | .write32 _ _ => 4

/-- what a call writes -/
def value : Call → Option ℕ
  | .read8 _ | .read16 _ | .read32 _ => none
  | .write8 _ value => some value.toNat
  | .write16 _ value => some value.toNat
  | .write32 _ value => some value.toNat

/-- the call is inside a memory of this size -/
def InRange (size : ℕ) (c : Call) : Prop := c.addr.toNat + c.width ≤ size

/-- the call writes byte b -/
def Writes (size b : ℕ) (c : Call) : Prop :=
  c.value.isSome = true ∧ c.InRange size ∧ c.addr.toNat ≤ b ∧ b < c.addr.toNat + c.width

instance (size b : ℕ) : DecidablePred (Call.Writes size b) :=
  fun _ => inferInstanceAs (Decidable (_ ∧ _ ≤ _ ∧ _ ∧ _))

/-- the byte that the call puts at b, little-endian -/
def byteAt (b : ℕ) (c : Call) : ℕ := c.value.getD 0 / 256 ^ (b - c.addr.toNat) % 256

end Call

/-- the memory behind a sequence of calls -/
def after (m : Memory) (calls : List Call) : Memory := calls.foldl (fun m c => (c.run m).2) m

/-- the byte most recently written at b, zero if there is none -/
def lastByte (size : ℕ) (calls : List Call) (b : ℕ) : ℕ :=
  match History.latest (Call.Writes size b) calls with
  | some c => c.byteAt b
  | none => 0

/-- a call on memory `m` behaves as on the byte map `bytes` -/
structure Behaves (size : ℕ) (m : Memory) (bytes : ℕ → ℕ) (c : Call) : Prop where
  throws : ¬ c.InRange size → c.run m = (.error (.outOfRange c.addr c.width size), m)
  reads : c.InRange size → c.value = none → c.run m = (.ok (some (Isa.read bytes c.addr.toNat c.width)), m)
  writes : c.InRange size → ∀ v, c.value = some v → ∃ m', c.run m = (.ok none, m') ∧ m'.size = size ∧
    ∀ b, m'.image b = if c.addr.toNat ≤ b ∧ b < c.addr.toNat + c.width then v / 256 ^ (b - c.addr.toNat) % 256
      else m.image b

/-! ## One call -/

theorem run_throws {m : Memory} {c : Call} (h : ¬ c.InRange m.size) :
    c.run m = (.error (.outOfRange c.addr c.width m.size), m) := by
  have hgt : m.size < c.addr.toNat + c.width := Nat.not_le.1 h
  cases c with
  | read8 addr => exact congrArg (fun x => (Except.map _ x, m)) (Memory.checkRange_bind_error hgt)
  | read16 addr => exact congrArg (fun x => (Except.map _ x, m)) (Memory.checkRange_bind_error hgt)
  | read32 addr => exact congrArg (fun x => (Except.map _ x, m)) (Memory.checkRange_bind_error hgt)
  | write8 addr value => exact congrArg (wrote m) (Memory.checkRange_bind_error hgt)
  | write16 addr value => exact congrArg (wrote m) (Memory.checkRange_bind_error hgt)
  | write32 addr value => exact congrArg (wrote m) (Memory.checkRange_bind_error hgt)

/-- a value read from the image -/
theorem map_read {n : ℕ} {x : Except Exn (BitVec n)} {v : ℕ} {m : Memory}
    (h : x.toOption.map BitVec.toNat = some v) : (x.map fun v => some v.toNat, m) = (.ok (some v), m) := by
  cases x with
  | error e => cases h
  | ok w =>
    rw [← Option.some.inj h]
    rfl

theorem run_read {m : Memory} {c : Call} (hsize : m.size ≤ 2 ^ 32) (h : c.InRange m.size) (hc : c.value = none) :
    c.run m = (.ok (some (Isa.read m.image c.addr.toNat c.width)), m) := by
  cases c with
  | read8 addr => exact map_read ((read8_eq m addr).trans (if_pos h))
  | read16 addr => exact map_read ((read16_eq m addr hsize).trans (if_pos h))
  | read32 addr => exact map_read ((read32_eq_read m addr fun hle => hle.trans hsize).trans (if_pos h))
  | write8 addr value => cases hc
  | write16 addr value => cases hc
  | write32 addr value => cases hc

/-- a written image -/
theorem wrote_image {m : Memory} {x : Except Exn Memory} {image : ℕ → ℕ}
    (h : x.toOption.map Memory.image = some image) (hsize : ∀ m', x = .ok m' → m'.size = m.size) :
    ∃ m', wrote m x = (.ok none, m') ∧ m'.size = m.size ∧ m'.image = image := by
  cases x with
  | error e => cases h
  | ok m' => exact ⟨m', rfl, hsize m' rfl, Option.some.inj h⟩

theorem run_write {m : Memory} {c : Call} {v : ℕ} (hsize : m.size ≤ 2 ^ 32) (h : c.InRange m.size)
    (hc : c.value = some v) :
    ∃ m', c.run m = (.ok none, m') ∧ m'.size = m.size ∧ m'.image = Isa.write m.image c.addr.toNat v c.width := by
  cases c with
  | read8 addr => cases hc
  | read16 addr => cases hc
  | read32 addr => cases hc
  | write8 addr value =>
    cases hc
    have himage := (write8_eq m addr (value.setWidth 32)).trans (if_pos h)
    rw [BitVec.setWidth_setWidth_of_le value (by decide), BitVec.setWidth_eq, setWidth_toNat value (by decide)] at himage
    exact wrote_image himage fun m' => Memory.write8_size
  | write16 addr value =>
    cases hc
    have himage := (write16_eq m addr (value.setWidth 32) hsize).trans (if_pos h)
    rw [BitVec.setWidth_setWidth_of_le value (by decide), BitVec.setWidth_eq, setWidth_toNat value (by decide)] at himage
    exact wrote_image himage fun m' => Memory.write16_size
  | write32 addr value =>
    cases hc
    exact wrote_image ((write32_eq m addr value hsize).trans (if_pos h)) fun m' => Memory.write32_size

/-! ## Sequences of calls -/

theorem after_snoc (m : Memory) (calls : List Call) (c : Call) :
    after m (calls ++ [c]) = (c.run (after m calls)).2 := by
  unfold after
  rw [List.foldl_append]
  rfl

/-- the last write over a byte, when one more call is made -/
theorem lastByte_snoc (size : ℕ) (calls : List Call) (c : Call) (b : ℕ) :
    lastByte size (calls ++ [c]) b = if c.Writes size b then c.byteAt b else lastByte size calls b := by
  unfold lastByte
  rw [History.latest_snoc]
  split_ifs <;> rfl

/-- **Each byte is what the last write over it put there.** -/
theorem image_after {size : ℕ} (hsize : size ≤ 2 ^ 32) (calls : List Call) :
    (after (Memory.zeros size) calls).size = size ∧
      (after (Memory.zeros size) calls).image = lastByte size calls := by
  induction calls using List.reverseRecOn with
  | nil =>
    have hzeros : (Memory.zeros size).size = size := Array.size_replicate
    refine ⟨hzeros, funext fun b => ?_⟩
    show ((Array.replicate size (0 : BitVec 8)).getD b 0).toNat = 0
    rw [Array.getD_eq_getD_getElem?, Array.getElem?_replicate]
    split_ifs <;> rfl
  | append_singleton calls c ih =>
    obtain ⟨hkeep, himage⟩ := ih
    rw [after_snoc]
    generalize after (Memory.zeros size) calls = m at hkeep himage ⊢
    subst hkeep
    by_cases hrange : c.InRange m.size
    · cases hc : c.value with
      | none =>
        rw [run_read hsize hrange hc]
        refine ⟨rfl, funext fun b => ?_⟩
        rw [lastByte_snoc, if_neg fun h => ?_, himage]
        simp [Call.Writes, hc] at h
      | some v =>
        obtain ⟨m', hrun, hsize', hwrite⟩ := run_write hsize hrange hc
        rw [hrun]
        refine ⟨hsize', funext fun b => ?_⟩
        rw [hwrite, Isa.write_apply, lastByte_snoc, himage]
        refine if_congr ?_ ?_ rfl
        · exact ⟨fun h => ⟨by rw [hc]; rfl, hrange, h⟩, fun h => h.2.2⟩
        · rw [Call.byteAt, hc, Option.getD_some]
    · rw [run_throws hrange]
      refine ⟨rfl, funext fun b => ?_⟩
      rw [lastByte_snoc, if_neg fun h => hrange h.2.1, himage]

/-- **Memory is a little-endian byte map:** every call of a sequence throws outside of it and then changes nothing, and
otherwise it writes its own bytes and no others, or reads the bytes most recently written. -/
theorem memory_refines {size : ℕ} (hsize : size ≤ 2 ^ 32) (earlier : List Call) (c : Call) :
    Behaves size (after (Memory.zeros size) earlier) (lastByte size earlier) c := by
  obtain ⟨hkeep, himage⟩ := image_after hsize earlier
  generalize after (Memory.zeros size) earlier = m at hkeep himage ⊢
  subst hkeep
  refine ⟨run_throws, fun hrange hc => ?_, fun hrange v hc => ?_⟩
  · rw [← himage]
    exact run_read hsize hrange hc
  · obtain ⟨m', hrun, hsize', hwrite⟩ := run_write hsize hrange hc
    refine ⟨m', hrun, hsize', fun b => ?_⟩
    rw [hwrite, Isa.write_apply]

/-- a misaligned word over the bytes of a word and a half word, behind a write that throws -/
theorem memory_refines_overlap :
    Behaves 8 (after (Memory.zeros 8) [.write32 0 0x44332211, .write8 5 0xee, .write16 2 0xbbaa, .write32 5 7])
      (lastByte 8 [.write32 0 0x44332211, .write8 5 0xee, .write16 2 0xbbaa, .write32 5 7]) (.read32 2) ∧
    lastByte 8 [.write32 0 0x44332211, .write8 5 0xee, .write16 2 0xbbaa, .write32 5 7] 5 = 0xee :=
  ⟨memory_refines (by decide) _ _, by decide⟩

end ByteMap

end Rv32im
