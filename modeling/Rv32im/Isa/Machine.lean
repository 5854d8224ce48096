/-
Whole programs of the instruction set: a machine that fetches, decodes and executes until ECALL or EBREAK.

The machine is the specification's. It stops with an exception, and then has no result, at a pc that is misaligned or
outside memory, at a word that does not decode, at an operand outside memory, and at a jump to a misaligned target.

- `Machine.run`: the instructions of a program in order, each with the state it started from, and the final state.
- `run_mono`, `run_length`: a larger limit changes nothing, and the limit bounds the instructions.
- `Instr.row`: what a retirement row tells about an instruction.
-/
import Rv32im.Isa.Spec
import Rv32im.Model.Cpu

namespace Rv32im

namespace Isa

namespace Instr

/-- the instruction ends a program -/
def stops : Instr → Bool
  | .ecall => true
  | .ebreak => true
  | _ => false

def loads : Instr → Bool
  | .load _ _ _ _ _ => true
  | _ => false

def stores : Instr → Bool
  | .store _ _ _ _ => true
  | _ => false

/-- the retirement row of an instruction, the `number`-th one, in front of state `s` -/
def row (i : Instr) (s : State) (word number : ℕ) : RetireEvent where
  retired := number
  pc := BitVec.ofNat 32 s.pc
  insn := BitVec.ofNat 32 word
  rd := (i.result s).elim 0 fun p => p.1.val
  wdata := BitVec.ofNat 32 ((i.result s).elim 0 Prod.snd)
  regWrite := (i.result s).any fun p => p.1 ≠ 0
  memAddr := BitVec.ofNat 32 ((i.access s).elim 0 Prod.fst)
  memRead := i.loads
  memWrite := i.stores

end Instr

/-- a program and a data memory of `size` bytes each -/
structure Machine where
  program : ℕ → ℕ
  size : ℕ

namespace Machine

variable (M : Machine)

def word (s : State) : ℕ := read M.program s.pc 4

def fetch (s : State) : Option Instr := if s.pc % 4 = 0 ∧ s.pc + 4 ≤ M.size then decode (M.word s) else none

def step (s : State) : Option (Instr × State) :=
  (M.fetch s).bind fun i => (i.exec M.size s).map fun t => (i, t)

/-- the instructions of a program with the states they started from, and the state behind the one that ends it; none if
that takes more than n instructions or if one raises an exception -/
def run : ℕ → State → Option (List (State × Instr) × State)
  | 0, _ => none
  | n + 1, s => (M.step s).bind fun p =>
    if p.1.stops then some ([(s, p.1)], p.2) else (run n p.2).map fun q => ((s, p.1) :: q.1, q.2)

/-- the retirement rows of a list of instructions, numbered behind `k` -/
def rows : ℕ → List (State × Instr) → List RetireEvent
  | _, [] => []
  | k, p :: l => p.2.row p.1 (M.word p.1) (k + 1) :: rows (k + 1) l

variable {M} {n k : ℕ} {s t u : State} {i : Instr} {log : List (State × Instr)}

theorem step_eq_some : M.step s = some (i, t) ↔ M.fetch s = some i ∧ i.exec M.size s = some t := by
  simp only [step, Option.bind_eq_some_iff, Option.map_eq_some_iff, Prod.mk.injEq]
  refine ⟨?_, ?_⟩
  · rintro ⟨j, hj, u, hu, rfl, rfl⟩
    exact ⟨hj, hu⟩
  · rintro ⟨hi, ht⟩
    exact ⟨i, hi, t, ht, rfl, rfl⟩

theorem fetch_eq_some : M.fetch s = some i ↔ s.pc % 4 = 0 ∧ s.pc + 4 ≤ M.size ∧ decode (M.word s) = some i := by
  unfold fetch
  split_ifs with h
  · exact ⟨fun hd => ⟨h.1, h.2, hd⟩, fun hd => hd.2.2⟩
  · exact iff_of_false (by simp) fun hd => h ⟨hd.1, hd.2.1⟩

theorem exec_eq_some : i.exec M.size s = some t ↔
    i.inRange M.size s = true ∧ i.targetAligned s = true ∧ i.run s = t := by
  unfold Instr.exec
  simp only [Bool.and_eq_true, Option.ite_none_right_eq_some, Option.some.injEq, and_assoc]

/-- the last instruction of a program, and one in front of it -/
theorem run_succ : M.run (n + 1) s = some (log, u) ↔ ∃ i t, M.step s = some (i, t) ∧
    ((i.stops = true ∧ log = [(s, i)] ∧ u = t) ∨
      (i.stops = false ∧ ∃ rest, M.run n t = some (rest, u) ∧ log = (s, i) :: rest)) := by
  simp only [run, Option.bind_eq_some_iff]
  refine ⟨?_, ?_⟩
  · rintro ⟨⟨i, t⟩, hstep, hrest⟩
    refine ⟨i, t, hstep, ?_⟩
    split_ifs at hrest with hstop
    · obtain ⟨rfl, rfl⟩ := Prod.mk.inj (Option.some.inj hrest)
      exact Or.inl ⟨hstop, rfl, rfl⟩
    · obtain ⟨⟨rest, v⟩, hrun, hpair⟩ := Option.map_eq_some_iff.1 hrest
      obtain ⟨rfl, rfl⟩ := Prod.mk.inj hpair
      exact Or.inr ⟨Bool.eq_false_iff.2 hstop, rest, hrun, rfl⟩
  · rintro ⟨i, t, hstep, ⟨hstop, rfl, rfl⟩ | ⟨hgo, rest, hrun, rfl⟩⟩
    · exact ⟨(i, u), hstep, if_pos hstop⟩
    · refine ⟨(i, t), hstep, (if_neg (Bool.eq_false_iff.1 hgo)).trans ?_⟩
      rw [hrun]
      rfl

/-- a larger limit changes nothing -/
theorem run_mono (h : M.run n s = some (log, u)) (hk : n ≤ k) : M.run k s = some (log, u) := by
  induction n generalizing s log k with
  | zero => cases h
  | succ n ih =>
    obtain ⟨k, rfl⟩ : ∃ l, k = l + 1 := ⟨k - 1, by omega⟩
    obtain ⟨i, t, hstep, hrest⟩ := run_succ.1 h
    refine run_succ.2 ⟨i, t, hstep, hrest.imp_right ?_⟩
    rintro ⟨hgo, rest, hrun, hlog⟩
    exact ⟨hgo, rest, ih hrun (Nat.le_of_succ_le_succ hk), hlog⟩

/-- the limit bounds the instructions of a program -/
theorem run_length (h : M.run n s = some (log, u)) : log.length ≤ n := by
  induction n generalizing s log with
  | zero => cases h
  | succ n ih =>
    obtain ⟨i, t, -, ⟨-, rfl, -⟩ | ⟨-, rest, hrun, rfl⟩⟩ := run_succ.1 h
    · exact Nat.succ_le_succ (Nat.zero_le n)
    · exact Nat.succ_le_succ (ih hrun)

/-- the instructions of a program are limit enough -/
theorem run_exact (h : M.run n s = some (log, u)) : M.run log.length s = some (log, u) := by
  induction n generalizing s log with
  | zero => cases h
  | succ n ih =>
    obtain ⟨i, t, hstep, hrest⟩ := run_succ.1 h
    rcases hrest with ⟨hstop, rfl, rfl⟩ | ⟨hgo, rest, hrun, rfl⟩
    · exact run_succ.2 ⟨i, u, hstep, Or.inl ⟨hstop, rfl, rfl⟩⟩
    · exact run_succ.2 ⟨i, t, hstep, Or.inr ⟨hgo, rest, ih hrun, rfl⟩⟩

theorem rows_length (l : List (State × Instr)) : (M.rows k l).length = l.length := by
  induction l generalizing k with
  | nil => rfl
  | cons p l ih => exact congrArg Nat.succ ih

end Machine

end Isa

end Rv32im
