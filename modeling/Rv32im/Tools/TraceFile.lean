/-
Retirement traces as files: what the model (`include/rv32im/Trace.hpp`) and the RTL collector
(`rtl/perf_trace_collector.sv`) write, and what `csv.DictReader` reads from it.

- `TraceWriter.write`, `PerfTraceCollector.display`: one line of either writer. `Writer.file`: a whole trace.
- `Shows`: a dictionary with the values of a retirement in the writers' format.
- `dictReader_file`: a written trace is read as one such dictionary for each retirement.
-/
import Rv32im.Core.Csv
import Rv32im.Model.Cpu

namespace Rv32im

open Text Csv

/-! ## The writers -/

/-- `0x` and eight digits -/
def word (x : BitVec 32) : List Char := '0' :: 'x' :: Text.hex 8 x.toNat

def bit (b : Bool) : List Char := decimal b.toNat

namespace TraceWriter

def header : String := "cycle,retired,pc,insn,rd,wdata,reg_write,mem_addr,mem_read,mem_write"

def write (e : RetireEvent) : List Char :=
  decimal e.cycle ++ ',' :: decimal e.retired ++ ',' :: word e.pc ++ ',' :: word e.insn ++ ',' :: decimal e.rd ++
    ',' :: word e.wdata ++ ',' :: bit e.regWrite ++ ',' :: word e.memAddr ++ ',' :: bit e.memRead ++
    ',' :: bit e.memWrite ++ ['\n']

end TraceWriter

namespace PerfTraceCollector

def header : String := "cycle,retired,pc,insn,rd,wdata,reg_write,mem_addr,mem_read,mem_write"

/-- the line of a retirement; the memory columns are constant -/
def display (e : RetireEvent) : List Char :=
  decimal e.cycle ++ ',' :: decimal e.retired ++ ',' :: word e.pc ++ ',' :: word e.insn ++ ',' :: decimal e.rd ++
    ',' :: word e.wdata ++ ',' :: bit e.regWrite ++ ",0x00000000,0,0\n".toList

end PerfTraceCollector

inductive Writer where
  | traceWriter
  | perfTraceCollector
deriving DecidableEq, Repr

namespace Writer

def header : Writer → String
  | traceWriter => TraceWriter.header
  | perfTraceCollector => PerfTraceCollector.header

def line : Writer → RetireEvent → List Char
  | traceWriter => TraceWriter.write
  | perfTraceCollector => PerfTraceCollector.display

/-- the file of a trace -/
def file (w : Writer) (events : List RetireEvent) : List Char :=
  w.header.toList ++ '\n' :: events.flatMap w.line

/-! ## Reading a trace back -/

def columns : List String :=
  ["cycle", "retired", "pc", "insn", "rd", "wdata", "reg_write", "mem_addr", "mem_read", "mem_write"]

/-- the cells of a line -/
def cells (w : Writer) (e : RetireEvent) : List (List Char) :=
  [decimal e.cycle, decimal e.retired, word e.pc, word e.insn, decimal e.rd, word e.wdata, bit e.regWrite] ++
    match w with
    | traceWriter => [word e.memAddr, bit e.memRead, bit e.memWrite]
    | perfTraceCollector => [word 0, bit false, bit false]

theorem header_join (w : Writer) : w.header.toList = join (columns.map String.toList) := by
  cases w with
  | traceWriter => simp [header, TraceWriter.header, columns, join, List.intercalate]
  | perfTraceCollector => simp [header, PerfTraceCollector.header, columns, join, List.intercalate]

theorem line_join (w : Writer) (e : RetireEvent) : w.line e = join (w.cells e) ++ ['\n'] := by
  cases w with
  | traceWriter => simp [line, TraceWriter.write, cells, join, List.intercalate]
  | perfTraceCollector =>
    simp [line, PerfTraceCollector.display, cells, join, List.intercalate, word, bit, Text.hex, decimal]

theorem plain_digits {l : List Char} (h : ∀ c ∈ l, ∃ d < 16, c = Nat.digitChar d) : Plain l := by
  have hdigit : ∀ d < 16, Nat.digitChar d ≠ ',' ∧ Nat.digitChar d ≠ '\n' ∧ Nat.digitChar d ≠ '"' := by decide
  intro c hc
  obtain ⟨d, hlt, rfl⟩ := h c hc
  exact hdigit d hlt

theorem plain_decimal (n : ℕ) : Plain (decimal n) := plain_digits fun _ => mem_decimal

theorem plain_word (x : BitVec 32) : Plain (word x) := by
  intro c hc
  rcases List.mem_cons.1 hc with rfl | hc
  · decide
  rcases List.mem_cons.1 hc with rfl | hc
  · decide
  exact plain_digits (fun _ => mem_hex) c hc

theorem writable_columns : Writable (columns.map String.toList) := by
  refine ⟨by decide, fun cell hcell => ?_⟩
  simp only [columns, List.map_cons, List.map_nil, List.mem_cons, List.not_mem_nil, or_false] at hcell
  rcases hcell with rfl | rfl | rfl | rfl | rfl | rfl | rfl | rfl | rfl | rfl
  all_goals simp [Plain]

theorem writable_cells (w : Writer) (e : RetireEvent) : Writable (w.cells e) := by
  refine ⟨?_, ?_⟩
  · simp [cells]
  · intro cell hcell
    cases w with
    | traceWriter =>
      simp only [cells, bit, List.cons_append, List.nil_append, List.mem_cons, List.not_mem_nil, or_false] at hcell
      rcases hcell with rfl | rfl | rfl | rfl | rfl | rfl | rfl | rfl | rfl | rfl
      all_goals first | exact plain_decimal _ | exact plain_word _
    | perfTraceCollector =>
      simp only [cells, bit, List.cons_append, List.nil_append, List.mem_cons, List.not_mem_nil, or_false] at hcell
      rcases hcell with rfl | rfl | rfl | rfl | rfl | rfl | rfl | rfl | rfl | rfl
      all_goals first | exact plain_decimal _ | exact plain_word _

theorem writable_rows (w : Writer) (events : List RetireEvent) : ∀ row ∈ events.map w.cells, Writable row := by
  intro row hrow
  obtain ⟨e, -, rfl⟩ := List.mem_map.1 hrow
  exact w.writable_cells e

/-- a written trace is the table of its columns and of the cells of its retirements -/
theorem file_unlines (w : Writer) (events : List RetireEvent) :
    w.file events = unlines ((columns.map String.toList :: events.map w.cells).map join) := by
  have hlines : events.flatMap w.line = unlines ((events.map w.cells).map join) := by
    rw [unlines, List.flatMap_map, List.flatMap_map]
    exact congrArg (fun f => events.flatMap f) (funext w.line_join)
  rw [file, header_join, hlines]
  simp [unlines]

/-- **A written trace is read** as its columns and one dictionary for each retirement. -/
theorem dictReader_file (w : Writer) (events : List RetireEvent) :
    dictReader (w.file events) = ⟨columns, events.map fun e => dict columns (w.cells e)⟩ := by
  rw [file_unlines, dictReader_unlines writable_columns (w.writable_rows events), List.map_map]
  rfl

end Writer

/-- a dictionary with the values of a retirement, as both writers write them -/
structure Shows (row : Row) (e : RetireEvent) : Prop where
  cycle : row "cycle" = some (some (decimal e.cycle))
  retired : row "retired" = some (some (decimal e.retired))
  pc : row "pc" = some (some (word e.pc))
  insn : row "insn" = some (some (word e.insn))
  rd : row "rd" = some (some (decimal e.rd))
  wdata : row "wdata" = some (some (word e.wdata))
  regWrite : row "reg_write" = some (some (bit e.regWrite))

theorem Writer.shows (w : Writer) (e : RetireEvent) : Shows (dict columns (w.cells e)) e := by
  cases w with
  | traceWriter =>
    constructor
    all_goals simp [dict, columns, cells, List.lookup_cons]
  | perfTraceCollector =>
    constructor
    all_goals simp [dict, columns, cells, List.lookup_cons]

theorem numeral_word (x : BitVec 32) : Numeral (word x) x.toNat := numeral_hex (by decide) x.isLt

theorem word_inj (x y : BitVec 32) : word x = word y ↔ x = y := by
  refine ⟨?_, ?_⟩
  · intro h
    have hy := numeral_word y
    rw [← h] at hy
    exact BitVec.eq_of_toNat_eq ((numeral_word x).eq hy)
  · intro h
    rw [h]

theorem decimal_inj (n m : ℕ) : decimal n = decimal m ↔ n = m := by
  refine ⟨?_, ?_⟩
  · intro h
    have hm := numeral_decimal m
    rw [← h] at hm
    exact (numeral_decimal n).eq hm
  · intro h
    rw [h]

end Rv32im
