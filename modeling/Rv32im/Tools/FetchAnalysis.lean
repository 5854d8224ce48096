/-
The control flow that the analysis scripts read from a retirement trace (`scripts/analyze_branch_fetch.py`,
`scripts/analyze_jump_fetch.py`): the branches, and the jumps, each with its decoded target and the pc that retires next.
The fetch traces beside it are left out.

- `AnalyzeFetch.scan`: the loop over the rows, for either script.
- `AnalyzeBranchFetch.branches`, `AnalyzeJumpFetch.jumps`: what each of them lists.
- `scan_file`: on a written trace, the rows of the trace, each with the next one.
-/
import Rv32im.Isa.Fields
import Rv32im.Tools.Comparators

namespace Rv32im

open Text Csv

inductive ReadError where
  | row (e : PyError)
  /-- `int(None, 0)` -/
  | noText
deriving DecidableEq, Repr

namespace AnalyzeFetch

/-- `int(r[key], 0)` -/
def num (r : Row) (key : String) : Except ReadError ℤ :=
  match Py.item r key with
  | .error e => .error (.row e)
  | .ok none => .error .noText
  | .ok (some text) => (Py.int 0 text).mapError .row

/-- `(value >> lo) & (2 ** width - 1)` -/
def part (value : ℤ) (lo width : ℕ) : ℕ := (value / 2 ^ lo % 2 ^ width).toNat

def sx (value bits : ℕ) : ℤ :=
  let sign := 1 <<< (bits - 1)
  ((value ^^^ sign : ℕ) : ℤ) - (sign : ℕ)

/-- the loop over the retired rows: `item` says what a row with this pc and this instruction adds, behind the next pc -/
def scan {α : Type} (item : ℤ → ℤ → Option (Option ℤ → α)) : List Row → Except ReadError (List α)
  | [] => return []
  | r :: rows => do
    let pc ← num r "pc"
    let insn ← num r "insn"
    match item pc insn with
    | none => scan item rows
    | some f => do
      let nextPc ← rows.head?.mapM fun next => num next "pc"
      return f nextPc :: (← scan item rows)

end AnalyzeFetch

open AnalyzeFetch

namespace AnalyzeBranchFetch

def branchTarget (pc insn : ℤ) : Option ℤ :=
  if insn % 128 ≠ 0x63 then none
  else
    let imm := (part insn 31 1 <<< 12) ||| (part insn 7 1 <<< 11) ||| (part insn 25 6 <<< 5) ||| (part insn 8 4 <<< 1)
    some ((pc + sx imm 13) % 2 ^ 32)

structure Branch where
  pc : ℤ
  target : ℤ
  taken : Bool
  nextPc : Option ℤ
deriving DecidableEq, Repr

def branch (pc insn : ℤ) : Option (Option ℤ → Branch) :=
  (branchTarget pc insn).map fun target nextPc => ⟨pc, target, nextPc = some target, nextPc⟩

def branches (text : List Char) : Except ReadError (List Branch) := scan branch (dictReader text).rows

end AnalyzeBranchFetch

namespace AnalyzeJumpFetch

def jalTarget (pc insn : ℤ) : Option ℤ :=
  if insn % 128 ≠ 0x6f then none
  else
    let imm := (part insn 31 1 <<< 20) ||| (part insn 12 8 <<< 12) ||| (part insn 20 1 <<< 11) |||
      (part insn 21 10 <<< 1)
    some ((pc + sx imm 21) % 2 ^ 32)

inductive Jump where
  | jal (pc : ℤ) (rd : ℕ) (target : Option ℤ) (nextPc : Option ℤ)
  | jalr (pc : ℤ) (rd rs1 : ℕ) (imm : ℤ) (nextPc : Option ℤ)
deriving DecidableEq, Repr

def jump (pc insn : ℤ) : Option (Option ℤ → Jump) :=
  let opcode := insn % 128
  if opcode ≠ 0x6f ∧ opcode ≠ 0x67 then none
  else if opcode = 0x6f then some (.jal pc (part insn 7 5) (jalTarget pc insn))
  else some (.jalr pc (part insn 7 5) (part insn 15 5) (sx (part insn 20 12) 12))

def jumps (text : List Char) : Except ReadError (List Jump) := scan jump (dictReader text).rows

end AnalyzeJumpFetch

/-! ## The decoded fields -/

section Fields

variable (insn : BitVec 32)

theorem part_field {lo width : ℕ} (h : 0 < width) :
    part (insn.toNat : ℤ) lo width = Isa.field insn.toNat (lo + width - 1) lo := by
  have hwidth : lo + width - 1 - lo + 1 = width := by omega
  unfold part Isa.field
  rw [hwidth]
  have hcast : (insn.toNat : ℤ) / 2 ^ lo % 2 ^ width = ((insn.toNat / 2 ^ lo % 2 ^ width : ℕ) : ℤ) := by push_cast; rfl
  rw [hcast, Int.toNat_natCast]

/-- `sx` reads a field as a signed number -/
theorem sx_signed {value width : ℕ} (h0 : 0 < width) (h : value < 2 ^ width) : sx value width = Isa.signed width value := by
  obtain ⟨k, rfl⟩ : ∃ k, width = k + 1 := ⟨width - 1, by omega⟩
  have hsign : 1 <<< k = 2 ^ k := Nat.one_shiftLeft k
  have hsucc : (2 : ℕ) ^ (k + 1) = 2 * 2 ^ k := Nat.pow_succ'
  unfold sx Isa.signed
  simp only [Nat.add_sub_cancel, hsign, flip_top (hsucc ▸ h)]
  split_ifs with hlt
  · push_cast
    omega
  · have hcast : (2 : ℤ) ^ (k + 1) = ((2 * 2 ^ k : ℕ) : ℤ) := by push_cast; ring
    rw [hcast, Nat.cast_sub (not_lt.1 hlt)]
    push_cast
    ring

/-- a field above other ones -/
theorem or_add {a b k : ℕ} (h : b < 2 ^ k) : a <<< k ||| b = a * 2 ^ k + b := by
  rw [Nat.shiftLeft_eq, Nat.mul_comm, Nat.two_pow_add_eq_or_of_lt h]

/-- four fields at descending positions -/
theorem or_fields {a b c d k₃ k₂ k₁ : ℕ} (h₁ : d * 2 < 2 ^ k₁) (h₂ : c * 2 ^ k₁ + d * 2 < 2 ^ k₂)
    (h₃ : b * 2 ^ k₂ + (c * 2 ^ k₁ + d * 2) < 2 ^ k₃) :
    a <<< k₃ ||| b <<< k₂ ||| c <<< k₁ ||| d <<< 1 = a * 2 ^ k₃ + b * 2 ^ k₂ + c * 2 ^ k₁ + d * 2 := by
  have hlow : d <<< 1 = d * 2 := Nat.shiftLeft_eq d 1
  calc a <<< k₃ ||| b <<< k₂ ||| c <<< k₁ ||| d <<< 1 = a <<< k₃ ||| (b <<< k₂ ||| (c <<< k₁ ||| d * 2)) := by
        rw [Nat.or_assoc, Nat.or_assoc, hlow]
    _ = a * 2 ^ k₃ + (b * 2 ^ k₂ + (c * 2 ^ k₁ + d * 2)) := by rw [or_add h₁, or_add h₂, or_add h₃]
    _ = a * 2 ^ k₃ + b * 2 ^ k₂ + c * 2 ^ k₁ + d * 2 := by rw [← Nat.add_assoc, ← Nat.add_assoc]

/-- a target is where the model jumps -/
theorem target_toNat {imm : BitVec 32} {offset : ℤ} (h : imm.toNat = Isa.wrap offset) (pc : BitVec 32) :
    ((pc.toNat : ℤ) + offset) % 2 ^ 32 = ((pc + imm).toNat : ℤ) := by
  rw [BitVec.toNat_add, h]
  unfold Isa.wrap
  omega

theorem branchTarget_eq (pc : BitVec 32) : AnalyzeBranchFetch.branchTarget pc.toNat insn.toNat =
    if opcode insn = 0x63 then some ((pc + immB insn).toNat : ℤ) else none := by
  have h₃ := field_lt insn.toNat 31 31
  have h₂ := field_lt insn.toNat 7 7
  have h₁ := field_lt insn.toNat 30 25
  have h₀ := field_lt insn.toNat 11 8
  have e₃ : part insn.toNat 31 1 = Isa.field insn.toNat 31 31 := part_field insn (by decide)
  have e₂ : part insn.toNat 7 1 = Isa.field insn.toNat 7 7 := part_field insn (by decide)
  have e₁ : part insn.toNat 25 6 = Isa.field insn.toNat 30 25 := part_field insn (by decide)
  have e₀ : part insn.toNat 8 4 = Isa.field insn.toNat 11 8 := part_field insn (by decide)
  have himm : sx ((part insn.toNat 31 1 <<< 12) ||| (part insn.toNat 7 1 <<< 11) ||| (part insn.toNat 25 6 <<< 5) |||
      (part insn.toNat 8 4 <<< 1)) 13 = Isa.immB insn.toNat := by
    rw [e₃, e₂, e₁, e₀, or_fields (by omega) (by omega) (by omega), sx_signed (by decide) (by omega)]
    rfl
  unfold AnalyzeBranchFetch.branchTarget
  simp only [himm, target_toNat (immB_toNat insn) pc, mod_opcode, ne_eq, ite_not]
  norm_cast

theorem jalTarget_eq (pc : BitVec 32) : AnalyzeJumpFetch.jalTarget pc.toNat insn.toNat =
    if opcode insn = 0x6f then some ((pc + immJ insn).toNat : ℤ) else none := by
  have h₃ := field_lt insn.toNat 31 31
  have h₂ := field_lt insn.toNat 19 12
  have h₁ := field_lt insn.toNat 20 20
  have h₀ := field_lt insn.toNat 30 21
  have e₃ : part insn.toNat 31 1 = Isa.field insn.toNat 31 31 := part_field insn (by decide)
  have e₂ : part insn.toNat 12 8 = Isa.field insn.toNat 19 12 := part_field insn (by decide)
  have e₁ : part insn.toNat 20 1 = Isa.field insn.toNat 20 20 := part_field insn (by decide)
  have e₀ : part insn.toNat 21 10 = Isa.field insn.toNat 30 21 := part_field insn (by decide)
  have himm : sx ((part insn.toNat 31 1 <<< 20) ||| (part insn.toNat 12 8 <<< 12) ||| (part insn.toNat 20 1 <<< 11) |||
      (part insn.toNat 21 10 <<< 1)) 21 = Isa.immJ insn.toNat := by
    rw [e₃, e₂, e₁, e₀, or_fields (by omega) (by omega) (by omega), sx_signed (by decide) (by omega)]
    rfl
  unfold AnalyzeJumpFetch.jalTarget
  simp only [himm, target_toNat (immJ_toNat insn) pc, mod_opcode, ne_eq, ite_not]
  norm_cast

/-- the fields of a JALR -/
theorem jalr_fields : part insn.toNat 7 5 = (rd insn).val ∧ part insn.toNat 15 5 = (rs1 insn).val ∧
    sx (part insn.toNat 20 12) 12 = Isa.immI insn.toNat := by
  have hlt := field_lt insn.toNat 31 20
  have erd : part insn.toNat 7 5 = Isa.field insn.toNat 11 7 := part_field insn (by decide)
  have ers1 : part insn.toNat 15 5 = Isa.field insn.toNat 19 15 := part_field insn (by decide)
  have eimm : part insn.toNat 20 12 = Isa.field insn.toNat 31 20 := part_field insn (by decide)
  refine ⟨?_, ?_, ?_⟩
  · rw [erd, rd_eq]
    rfl
  · rw [ers1, rs1_eq]
    rfl
  · rw [eimm, sx_signed (by decide) hlt]
    rfl

end Fields

/-! ## Written traces -/

namespace AnalyzeFetch

/-- the rows, each with the pc of the next one -/
def nexts : List RetireEvent → List (RetireEvent × Option (BitVec 32))
  | [] => []
  | e :: rows => (e, rows.head?.map RetireEvent.pc) :: nexts rows

/-- what the loop lists for retirements -/
def listed {α : Type} (item : ℤ → ℤ → Option (Option ℤ → α)) (events : List RetireEvent) : List α :=
  (nexts events).filterMap fun p =>
    (item p.1.pc.toNat p.1.insn.toNat).map fun f => f (p.2.map fun pc => (pc.toNat : ℤ))

theorem num_word {r : Row} {key : String} {x : BitVec 32} (h : r key = some (some (word x))) :
    num r key = .ok (x.toNat : ℤ) := by
  unfold num
  simp only [item_of h, int_numeral (numeral_word x)]
  rfl

/-- **The loop over a written trace**, by either writer. -/
theorem scan_file {α : Type} (item : ℤ → ℤ → Option (Option ℤ → α)) (w : Writer) (events : List RetireEvent) :
    scan item (dictReader (w.file events)).rows = .ok (listed item events) := by
  rw [w.dictReader_file]
  show scan item (events.map fun e => dict Writer.columns (w.cells e)) = _
  induction events with
  | nil => rfl
  | cons e events ih =>
    have hshows := w.shows e
    have hnext : (events.map fun e => dict Writer.columns (w.cells e)).head?.mapM (fun next => num next "pc") =
        .ok ((events.head?.map RetireEvent.pc).map fun pc => (pc.toNat : ℤ)) := by
      cases events with
      | nil => rfl
      | cons f events =>
        show (num (dict Writer.columns (w.cells f)) "pc").map some = _
        rw [num_word (w.shows f).pc]
        rfl
    rw [List.map_cons, scan, num_word hshows.pc, num_word hshows.insn]
    simp only [bind, Except.bind, pure, Except.pure, hnext, ih]
    show _ = Except.ok (((e, events.head?.map RetireEvent.pc) :: nexts events).filterMap _)
    rw [List.filterMap_cons]
    cases item e.pc.toNat e.insn.toNat <;> rfl

end AnalyzeFetch

end Rv32im
