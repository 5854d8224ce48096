/-
The summary of an RTL trace (`parse_u64`, `split_csv` and `read_rtl_summary` of `main.cpp`).

The first line is taken for a header without a look at it. A line without a second field is skipped, and of any other
one only the first field is read.

- `readLine`: one turn of the loop. `readRtlSummary`: the file.
- `readLine_join`: a line of cells without commas.
- `readRtlSummary_file`: the trace of either writer is summed up as its length and its first and its last cycle.
-/
import Rv32im.Core.CppText
import Rv32im.Tools.TraceFile

namespace Rv32im

open CppText

inductive SummaryExn where
  | notOpened (path : String)
  | empty (path : String)
  | noRows (path : String)
  | stoull (e : StoulError)
  | invalidInteger (text : List Char)
deriving DecidableEq, Repr

/-- the text of the exception; both exceptions of the conversion carry its name -/
def SummaryExn.what : SummaryExn → String
  | .notOpened path => "Could not open RTL trace: " ++ path
  | .empty path => "RTL trace is empty: " ++ path
  | .noRows path => "RTL trace has no retirement rows: " ++ path
  | .stoull _ => "stoull"
  | .invalidInteger text => "Invalid integer: " ++ String.ofList text

structure RtlTraceSummary where
  rows : ℕ := 0
  firstRetireCycle : ℕ := 0
  lastRetireCycle : ℕ := 0
deriving DecidableEq, Repr

namespace RtlSummary

def parseU64 (text : List Char) : Except SummaryExn ℕ := do
  let (value, used) ← (stoull text).mapError .stoull
  if used ≠ text.length then .error (.invalidInteger text) else return value

def splitCsv (line : List Char) : List (List Char) := getlinesAt ',' line

/-- the retirement of a row -/
def addRow (summary : RtlTraceSummary) (cycle : ℕ) : RtlTraceSummary :=
  { rows := summary.rows + 1
    firstRetireCycle := if summary.rows = 0 then cycle else summary.firstRetireCycle
    lastRetireCycle := cycle }

def readLine (summary : RtlTraceSummary) (line : List Char) : Except SummaryExn RtlTraceSummary :=
  if line = [] then .ok summary
  else
    match splitCsv line with
    | first :: _ :: _ => do
      let cycle ← parseU64 first
      return addRow summary cycle
    | _ => .ok summary

/-- the file is its bytes, or nothing where it could not be opened -/
def readRtlSummary (path : String) (file : Option (List Char)) : Except SummaryExn RtlTraceSummary :=
  match file with
  | none => .error (.notOpened path)
  | some text =>
    match getlines text with
    | [] => .error (.empty path)
    | _ :: lines => do
      let summary ← lines.foldlM readLine {}
      if summary.rows = 0 then .error (.noRows path) else return summary

/-! ## The rows of a written trace -/

/-- a number below 2^64 is read as it was written -/
theorem parseU64_decimal {n : ℕ} (hn : n < 2 ^ 64) : parseU64 (Text.decimal n) = .ok n := by
  unfold parseU64
  rw [stoull_decimal hn]
  simp [Except.mapError, bind, Except.bind, pure, Except.pure]

theorem splitCsv_join {row : List (List Char)} (h : Csv.Writable row) (hlast : row.getLast? ≠ some []) :
    splitCsv (Csv.join row) = row := by
  refine getlinesAt_intercalate (fun cell hcell hmem => (h.plain cell hcell ',' hmem).1 rfl) ?_ hlast
  rintro rfl
  exact absurd h.wide (by decide)

/-- of a line of cells only the first one is read -/
theorem readLine_join {first next : List Char} {row : List (List Char)} (h : Csv.Writable (first :: next :: row))
    (hlast : (first :: next :: row).getLast? ≠ some []) (summary : RtlTraceSummary) :
    readLine summary (Csv.join (first :: next :: row)) = (parseU64 first).map (addRow summary) := by
  have hne : Csv.join (first :: next :: row) ≠ [] := by
    rw [Csv.join_cons_cons]
    exact List.append_ne_nil_of_right_ne_nil _ (List.cons_ne_nil _ _)
  unfold readLine
  rw [if_neg hne, splitCsv_join h hlast]
  cases hparse : parseU64 first with
  | error e => simp only [hparse, Except.map, bind, Except.bind]
  | ok cycle => simp only [hparse, Except.map, bind, Except.bind, pure, Except.pure]

theorem readLine_cells (w : Writer) {e : RetireEvent} (he : e.cycle < 2 ^ 64) (summary : RtlTraceSummary) :
    readLine summary (Csv.join (w.cells e)) = .ok (addRow summary e.cycle) := by
  have hlast : (w.cells e).getLast? ≠ some [] := by
    cases w with
    | traceWriter => simp [Writer.cells, bit, Text.decimal_ne_nil]
    | perfTraceCollector => simp [Writer.cells, bit, Text.decimal_ne_nil]
  have hcells := w.writable_cells e
  unfold Writer.cells at hlast hcells ⊢
  rw [List.cons_append, List.cons_append] at hlast hcells ⊢
  rw [readLine_join hcells hlast, parseU64_decimal he]
  rfl

/-- the lines of a trace, by induction on its retirements -/
theorem foldlM_cells (w : Writer) {events : List RetireEvent} (h : ∀ e ∈ events, e.cycle < 2 ^ 64)
    (summary : RtlTraceSummary) :
    ((events.map w.cells).map Csv.join).foldlM readLine summary =
      .ok ((events.map RetireEvent.cycle).foldl addRow summary) := by
  induction events generalizing summary with
  | nil => rfl
  | cons e events ih =>
    rw [List.map_cons, List.map_cons, List.foldlM_cons, readLine_cells w (h e List.mem_cons_self)]
    exact ih (fun d hd => h d (List.mem_cons_of_mem e hd)) _

/-- behind the first row, only the count and the last cycle change -/
theorem foldl_addRow {summary : RtlTraceSummary} (h : summary.rows ≠ 0) (cycles : List ℕ) :
    cycles.foldl addRow summary =
      ⟨summary.rows + cycles.length, summary.firstRetireCycle, cycles.getLastD summary.lastRetireCycle⟩ := by
  induction cycles generalizing summary with
  | nil => rfl
  | cons cycle cycles ih =>
    rw [List.foldl_cons, ih (Nat.succ_ne_zero summary.rows), List.getLastD_cons, List.length_cons]
    simp only [addRow, if_neg h, Nat.add_assoc, Nat.add_comm 1]

theorem foldl_addRow_empty {cycles : List ℕ} (hne : cycles ≠ []) :
    cycles.foldl addRow {} = ⟨cycles.length, cycles.head hne, cycles.getLast hne⟩ := by
  obtain ⟨cycle, cycles, rfl⟩ := List.exists_cons_of_ne_nil hne
  rw [List.foldl_cons, foldl_addRow (Nat.succ_ne_zero 0), List.head_cons, List.length_cons, List.getLast_eq_getLastD]
  simp only [addRow, if_true, Nat.zero_add, Nat.add_comm 1]

/-- the header and the rows of a written trace, as lines -/
theorem getlines_file (w : Writer) (events : List RetireEvent) : getlines (w.file events) =
    Csv.join (Writer.columns.map String.toList) :: (events.map w.cells).map Csv.join := by
  rw [w.file_unlines]
  refine getlines_unlines fun line hline => ?_
  obtain ⟨row, hrow, rfl⟩ := List.mem_map.1 hline
  rcases List.mem_cons.1 hrow with rfl | hrow
  · exact Csv.newline_notMem_join Writer.writable_columns.plain
  · exact Csv.newline_notMem_join (w.writable_rows events row hrow).plain

/-- **The summary of a written trace:** its length, and the cycles of its first and of its last retirement. -/
theorem readRtlSummary_file (w : Writer) (path : String) {events : List RetireEvent} (hne : events ≠ [])
    (h : ∀ e ∈ events, e.cycle < 2 ^ 64) :
    readRtlSummary path (some (w.file events)) =
      .ok ⟨events.length, (events.head hne).cycle, (events.getLast hne).cycle⟩ := by
  have hcycles : events.map RetireEvent.cycle ≠ [] := mt List.map_eq_nil_iff.1 hne
  unfold readRtlSummary
  simp only [getlines_file, foldlM_cells w h, foldl_addRow_empty hcycles, bind, Except.bind, List.length_map,
    List.length_eq_zero_iff, if_neg hne, List.head_map, List.getLast_map, pure, Except.pure]

end RtlSummary

end Rv32im
