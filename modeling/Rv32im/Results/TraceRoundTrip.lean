/-
What a trace file keeps of the retirements that were written to it.

The writer changes the base of its stream between the fields of a row, and its readers find out the base of each number
by themselves: `compare_traces.py` by `int(text, 0)`, `read_rtl_summary` by `std::stoull` with base 0. A decimal number
without leading zeros and a hexadecimal one with its prefix are read alike by both.

- `trace_round_trip`: the values that `compare_traces.py` loads, and the summary of `read_rtl_summary`.
- `traceFile_injective`: the file determines every field of every retirement, also those that no reader looks at.
-/
import Rv32im.Tools.Comparators
import Rv32im.Tools.RtlSummary
import Rv32im.Tools.TraceStream

namespace Rv32im

open TraceWriter RtlSummary

/-- **The round trip.** The file of any retirements is loaded as their values in their order, and `read_rtl_summary`
counts them and finds the cycles of the first and of the last one. -/
theorem trace_round_trip (path : String) (events : List RetireEvent) : ∃ text, traceFile path true events = .ok text ∧
    CompareTraces.load path text = .ok (events.mapIdx fun i e => CompareTraces.loaded (i + 2) e) ∧
    ∀ hne : events ≠ [], (∀ e ∈ events, e.cycle < 2 ^ 64) →
      readRtlSummary path (some text) = .ok ⟨events.length, (events.head hne).cycle, (events.getLast hne).cycle⟩ := by
  refine ⟨_, traceFile_eq path events, CompareTraces.load_file _ path events, fun hne h => ?_⟩
  exact readRtlSummary_file _ path hne h

/-- two retirements at the ends of the ranges -/
theorem trace_round_trip_extremes :
    let e : RetireEvent := { cycle := 8, retired := 1, pc := 0x80000010, insn := 0xffffffff, rd := 31, wdata := 7 }
    let last : RetireEvent := { cycle := 2 ^ 64 - 1, retired := 2, wdata := 0xdeadbeef, regWrite := true }
    ∃ text, traceFile "trace.csv" true [e, last] = .ok text ∧
      CompareTraces.load "trace.csv" text =
        .ok [⟨2, 8, 1, 0x80000010, 0xffffffff, 31, 7, 0⟩, ⟨3, 2 ^ 64 - 1, 2, 0, 0, 0, 0xdeadbeef, 1⟩] ∧
      readRtlSummary "trace.csv" (some text) = .ok ⟨2, 8, 2 ^ 64 - 1⟩ := by
  intro e last
  obtain ⟨text, hfile, hload, hsummary⟩ := trace_round_trip "trace.csv" [e, last]
  exact ⟨text, hfile, hload, hsummary (List.cons_ne_nil _ _) (by decide)⟩

/-- the cells of a row determine its retirement -/
theorem cells_injective : Function.Injective Writer.traceWriter.cells := by
  intro d e h
  cases d
  cases e
  simp only [Writer.cells, List.cons_append, List.nil_append, List.cons.injEq, decimal_inj, word_inj, bit_inj,
    and_true] at h
  obtain ⟨rfl, rfl, rfl, rfl, rfl, rfl, rfl, rfl, rfl, rfl⟩ := h
  rfl

/-- **A file determines its retirements.** -/
theorem traceFile_injective (path : String) : Function.Injective (traceFile path true) := by
  intro model rtl h
  rw [traceFile_eq, traceFile_eq, Except.ok.injEq, Writer.file_unlines, Writer.file_unlines] at h
  have hparse : ∀ events : List RetireEvent,
      Csv.parse (Text.unlines ((Writer.columns.map String.toList :: events.map Writer.traceWriter.cells).map Csv.join)) =
        Writer.columns.map String.toList :: events.map Writer.traceWriter.cells := fun events =>
    Csv.parse_unlines (List.forall_mem_cons.2 ⟨Writer.writable_columns, Writer.writable_rows _ events⟩)
  have hrows := (hparse model).symm.trans ((congrArg Csv.parse h).trans (hparse rtl))
  exact List.map_injective_iff.2 cells_injective (List.cons.inj hrows).2

end Rv32im
