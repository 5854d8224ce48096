/-
The report of a trace (`scripts/analyze_trace.py`): its rows, its last cycle, and its instructions by their opcodes.

- `AnalyzeTrace.analyze`: the numbers of the report. `AnalyzeTrace.main`: its lines.
- `analyze_file`: on a written trace of any length, the numbers are those of its retirements.
-/
import Rv32im.Core.Counter
import Rv32im.Tools.Comparators

namespace Rv32im

open Text Csv

namespace AnalyzeTrace

def opcodes : List (ℤ × String) := [
  (0x03, "load"), (0x0f, "fence"), (0x13, "op_imm"), (0x17, "auipc"), (0x23, "store"), (0x33, "op"), (0x37, "lui"),
  (0x63, "branch"), (0x67, "jalr"), (0x6f, "jal"), (0x73, "system")]

/-- `OPCODES.get(insn & 0x7F, "other")` -/
def kindOf (insn : ℤ) : String := (opcodes.lookup (insn % 128)).getD "other"

def num (text : Cell) : Py ℤ :=
  let text := strip (Py.orZero text)
  match Py.int 0 text with
  | .ok n => .ok n
  | .error _ => Py.int 16 text

structure Report where
  rows : ℕ := 0
  lastCycle : ℤ := 0
  counts : Counter String := []
deriving DecidableEq, Repr

/-- the loop over the rows -/
def readRow (report : Report) (r : Row) : Py Report := do
  let cycle ← num (Py.get r "cycle" ['0'])
  let insn ← num (← Py.item r "insn")
  return ⟨report.rows + 1, max report.lastCycle cycle, report.counts.bump (kindOf insn)⟩

def analyze (text : List Char) : Py Report := (dictReader text).rows.foldlM readRow {}

/-- the floating-point numbers of the report -/
structure Floats where
  cpi : Report → String
  percent : Report → ℕ → String

/-- `{text:10s}` -/
def left (text : String) : String := text ++ String.ofList (List.replicate (10 - text.length) ' ')

/-- `{number:8d}` -/
def right (number : ℕ) : String := String.ofList (List.replicate (8 - (toString number).length) ' ') ++ toString number

/-- what `main` prints -/
def main (fl : Floats) (text : List Char) : Py (List String) := do
  let report ← analyze text
  return ["RV32IM trace summary", "====================", "retired : " ++ toString report.rows,
    "cycles  : " ++ toString report.lastCycle, "CPI     : " ++ fl.cpi report, "", "Instruction mix:"] ++
    report.counts.mostCommon.map fun p =>
      "  " ++ left p.1 ++ " " ++ right p.2 ++ "  " ++ fl.percent report p.2 ++ "%"

/-! ## Written traces -/

theorem num_numeral {s : List Char} {n : ℕ} (h : Numeral s n) : num (some s) = .ok (n : ℤ) := by
  unfold num
  rw [orZero_numeral h, h.strip]
  simp only [int_numeral h]

/-- the opcode name of a retirement -/
def kindOfEvent (e : RetireEvent) : String := kindOf e.insn.toNat

/-- the report of retirements, behind another one -/
def behind (report : Report) (events : List RetireEvent) : Report where
  rows := report.rows + events.length
  lastCycle := events.foldl (fun last e => max last e.cycle) report.lastCycle
  counts := report.counts.tally (events.map kindOfEvent)

theorem readRow_shows {row : Row} {e : RetireEvent} (h : Shows row e) (report : Report) :
    readRow report row = .ok (behind report [e]) := by
  unfold readRow
  rw [get_of h.cycle, item_of h.insn]
  simp only [bind, Except.bind, pure, Except.pure, num_numeral (numeral_decimal e.cycle),
    num_numeral (numeral_word e.insn)]
  rfl

theorem behind_cons (report : Report) (e : RetireEvent) (events : List RetireEvent) :
    behind report (e :: events) = behind (behind report [e]) events := by
  unfold behind
  simp only [List.length_cons, List.length_nil, List.foldl_cons, List.foldl_nil, Report.mk.injEq, true_and]
  exact ⟨by omega, rfl⟩

/-- **The report of a written trace**, by either writer. -/
theorem analyze_file (w : Writer) (events : List RetireEvent) : analyze (w.file events) = .ok (behind {} events) := by
  have hrun : ∀ report, (events.map fun e => dict Writer.columns (w.cells e)).foldlM readRow report =
      .ok (behind report events) := by
    induction events with
    | nil =>
      intro report
      rfl
    | cons e events ih =>
      intro report
      rw [List.map_cons, List.foldlM_cons, readRow_shows (w.shows e), behind_cons report e events]
      exact ih (behind report [e])
  unfold analyze
  rw [w.dictReader_file]
  exact hrun {}

end AnalyzeTrace

end Rv32im
