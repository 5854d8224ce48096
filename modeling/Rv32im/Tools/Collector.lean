/-
The RTL trace collector (`rtl/perf_trace_collector.sv`) at the edges of its clock.

The collector writes a row for each edge with a valid write-back, unless the pipeline is stalled. A stalled pipeline holds
its write-back stage, so an instruction can be seen at many edges.

- `posedge`: one edge. `collected`: the rows of a history of edges, counted without a width.
- `text_run`: the file of a history. The counters of 64 bits make no difference below 2^64 edges.
- `Presents`: what the write-back stage of the pipeline shows. `collector_exactly_once`: each instruction has one row.
-/
import Rv32im.Tools.Comparators

namespace Rv32im

open Text

/-- the ports, as an edge of the clock samples them -/
structure Pins where
  reset : Bool := false
  valid : Bool := false
  pc : BitVec 32 := 0
  insn : BitVec 32 := 0
  cycleStatus : BitVec 32 := 0
  rd : BitVec 5 := 0
  wdata : BitVec 32 := 0
  regWrite : Bool := false
deriving DecidableEq, Repr

/-- the row of the ports -/
def Pins.event (p : Pins) (cycle retired : ℕ) : RetireEvent where
  cycle := cycle
  retired := retired
  pc := p.pc
  insn := p.insn
  rd := p.rd.toNat
  wdata := p.wdata
  regWrite := p.regWrite

/-- the variables of the collector, and what its file holds -/
structure PerfTraceCollector where
  cycle : BitVec 64 := 0
  retired : BitVec 64 := 0
  text : List Char

namespace PerfTraceCollector

/-- behind the `initial` block, with a file that could be opened -/
def initial : PerfTraceCollector := { text := header.toList ++ ['\n'] }

/-- `always_ff @(posedge clk)`; every right-hand side is read in front of the edge -/
def posedge (memstall : BitVec 32) (c : PerfTraceCollector) (p : Pins) : PerfTraceCollector :=
  if p.reset then { c with cycle := 0, retired := 0 }
  else if p.valid = true ∧ p.cycleStatus ≠ memstall then
    { cycle := c.cycle + 1, retired := c.retired + 1
      text := c.text ++ display (p.event (c.cycle + 1).toNat (c.retired + 1).toNat) }
  else { c with cycle := c.cycle + 1 }

/-- the file behind a history of edges -/
def file (memstall : BitVec 32) (history : List Pins) : List Char := (history.foldl (posedge memstall) initial).text

/-! ## The rows of a history -/

/-- the rows of a history behind `cycle` edges and `retired` rows; a reset starts both anew -/
def collected (memstall : BitVec 32) : ℕ → ℕ → List Pins → List RetireEvent
  | _, _, [] => []
  | cycle, retired, p :: history =>
    if p.reset then collected memstall 0 0 history
    else if p.valid = true ∧ p.cycleStatus ≠ memstall then
      p.event (cycle + 1) (retired + 1) :: collected memstall (cycle + 1) (retired + 1) history
    else collected memstall (cycle + 1) retired history

section

variable {memstall : BitVec 32} {history pins : List Pins} {c : PerfTraceCollector} {p : Pins}

/-- **The file of a history** is that of its rows, as long as the counter of the edges does not wrap. -/
theorem text_run (hcount : c.cycle.toNat + history.length < 2 ^ 64) (hrows : c.retired.toNat ≤ c.cycle.toNat) :
    (history.foldl (posedge memstall) c).text =
      c.text ++ (collected memstall c.cycle.toNat c.retired.toNat history).flatMap display := by
  induction history generalizing c with
  | nil => exact (List.append_nil _).symm
  | cons p history ih =>
    rw [List.length_cons] at hcount
    have hcycle : (c.cycle + 1).toNat = c.cycle.toNat + 1 := by
      rw [BitVec.toNat_add]
      exact Nat.mod_eq_of_lt (by simp; omega)
    have hretired : (c.retired + 1).toNat = c.retired.toNat + 1 := by
      rw [BitVec.toNat_add]
      exact Nat.mod_eq_of_lt (by simp; omega)
    have hnext : ∀ (r : BitVec 64) (text : List Char), r.toNat ≤ c.cycle.toNat + 1 →
        (history.foldl (posedge memstall) ⟨c.cycle + 1, r, text⟩).text =
          text ++ (collected memstall (c.cycle.toNat + 1) r.toNat history).flatMap display := by
      intro r text hr
      rw [← hcycle] at hr ⊢
      exact @ih ⟨c.cycle + 1, r, text⟩ (by show (c.cycle + 1).toNat + _ < _; omega) hr
    rw [List.foldl_cons, collected]
    by_cases hreset : p.reset = true
    · rw [if_pos hreset, posedge, if_pos hreset]
      exact @ih ⟨0, 0, c.text⟩ (by show 0 + _ < _; omega) le_rfl
    by_cases hretires : p.valid = true ∧ p.cycleStatus ≠ memstall
    · rw [if_neg hreset, if_pos hretires, posedge, if_neg hreset, if_pos hretires, hnext _ _ (by omega), hcycle,
        hretired, List.flatMap_cons, List.append_assoc]
    · rw [if_neg hreset, if_neg hretires, posedge, if_neg hreset, if_neg hretires, hnext _ _ (by omega)]

/-- behind a reset the collector is as new, apart from its file -/
theorem resets_run (hresets : ∀ p ∈ history, p.reset = true) (text : List Char) :
    history.foldl (posedge memstall) ⟨0, 0, text⟩ = ⟨0, 0, text⟩ := by
  induction history with
  | nil => rfl
  | cons p history ih =>
    have hfirst : posedge memstall ⟨0, 0, text⟩ p = ⟨0, 0, text⟩ := if_pos (hresets p List.mem_cons_self)
    rw [List.foldl_cons, hfirst]
    exact ih fun q hq => hresets q (List.mem_cons_of_mem p hq)

/-! ## The write-back stage -/

/-- the write-back stage shows the instructions `l` in order: each is held while the pipeline is stalled, and then shown
once more; between them are bubbles -/
inductive Presents (memstall : BitVec 32) : List RetireEvent → List Pins → Prop
  | nil : Presents memstall [] []
  | bubble {p : Pins} {l : List RetireEvent} {pins : List Pins} : p.reset = false → p.valid = false →
      Presents memstall l pins → Presents memstall l (p :: pins)
  | held {p : Pins} {e : RetireEvent} {l : List RetireEvent} {pins : List Pins} : p.reset = false → p.valid = true →
      p.event 0 0 = e → p.cycleStatus = memstall → Presents memstall (e :: l) pins → Presents memstall (e :: l) (p :: pins)
  | retired {p : Pins} {e : RetireEvent} {l : List RetireEvent} {pins : List Pins} : p.reset = false → p.valid = true →
      p.event 0 0 = e → p.cycleStatus ≠ memstall → Presents memstall l pins → Presents memstall (e :: l) (p :: pins)

/-- the rows of instructions `l` behind `cycle` edges and `retired` rows, up to edge `last` -/
structure Collects (l rows : List RetireEvent) (cycle retired last : ℕ) : Prop where
  instructions : rows.map (fun e => { e with cycle := 0, retired := 0 }) = l
  numbers : rows.map RetireEvent.retired = List.range' (retired + 1) l.length
  edges : (rows.map RetireEvent.cycle).Pairwise (· < ·)
  behind : ∀ e ∈ rows, cycle < e.cycle ∧ e.cycle ≤ last

theorem Collects.later {l rows : List RetireEvent} {cycle retired last : ℕ}
    (h : Collects l rows (cycle + 1) retired last) : Collects l rows cycle retired last :=
  ⟨h.instructions, h.numbers, h.edges, fun e he => ⟨Nat.lt_of_succ_lt (h.behind e he).1, (h.behind e he).2⟩⟩

/-- **Each instruction that is shown has one row**, by induction on what the write-back stage shows. -/
theorem collects_of_presents {l : List RetireEvent} (h : Presents memstall l pins) (cycle retired : ℕ) :
    Collects l (collected memstall cycle retired pins) cycle retired (cycle + pins.length) := by
  induction h generalizing cycle retired with
  | nil => exact ⟨rfl, rfl, List.Pairwise.nil, fun e he => absurd he List.not_mem_nil⟩
  | @bubble p l pins hreset hvalid _ ih =>
    have hcollected : collected memstall cycle retired (p :: pins) = collected memstall (cycle + 1) retired pins := by
      rw [collected, if_neg (by simp [hreset]), if_neg (by simp [hvalid])]
    rw [hcollected, List.length_cons, ← Nat.add_assoc, Nat.add_right_comm]
    exact (ih _ _).later
  | @held p e l pins hreset hvalid _ hstatus _ ih =>
    have hcollected : collected memstall cycle retired (p :: pins) = collected memstall (cycle + 1) retired pins := by
      rw [collected, if_neg (by simp [hreset]), if_neg (by simp [hstatus])]
    rw [hcollected, List.length_cons, ← Nat.add_assoc, Nat.add_right_comm]
    exact (ih _ _).later
  | @retired p e l pins hreset hvalid hshown hstatus _ ih =>
    have hcollected : collected memstall cycle retired (p :: pins) =
        p.event (cycle + 1) (retired + 1) :: collected memstall (cycle + 1) (retired + 1) pins := by
      rw [collected, if_neg (by simp [hreset]), if_pos ⟨hvalid, hstatus⟩]
    obtain ⟨hinstructions, hnumbers, hedges, hbehind⟩ := ih (cycle + 1) (retired + 1)
    rw [hcollected, List.length_cons, ← Nat.add_assoc, Nat.add_right_comm]
    refine ⟨?_, ?_, ?_, ?_⟩
    · rw [List.map_cons, hinstructions, ← hshown]
      rfl
    · rw [List.map_cons, hnumbers, List.length_cons, List.range'_succ]
      rfl
    · rw [List.map_cons, List.pairwise_cons]
      refine ⟨fun k hk => ?_, hedges⟩
      obtain ⟨row, hrow, rfl⟩ := List.mem_map.1 hk
      exact (hbehind row hrow).1
    · intro row hrow
      rcases List.mem_cons.1 hrow with rfl | hrow
      · exact ⟨Nat.lt_succ_self cycle, Nat.le_add_right _ _⟩
      · exact ⟨Nat.lt_of_succ_lt (hbehind row hrow).1, (hbehind row hrow).2⟩

/-- rows agree with the rows of a model as their instructions do -/
theorem correlated_bare (model rows : List RetireEvent) :
    Correlated model (rows.map fun e => { e with cycle := 0, retired := 0 }) ↔ Correlated model rows := by
  rw [correlated_iff, correlated_iff, List.forall₂_map_right_iff]
  rfl

end

end PerfTraceCollector

open PerfTraceCollector

/-- **The collector writes each retirement once.** Behind any edges in reset, for a write-back stage that shows the
instructions `l` over fewer than 2^64 edges, however long it holds each of them, the file is that of one row for each
instruction. The rows are numbered from 1 and stand at increasing edges. Every comparator accepts the file exactly if
the instructions agree with the rows of the model. -/
theorem collector_exactly_once (memstall : BitVec 32) (resets pins : List Pins) (l : List RetireEvent)
    (hresets : ∀ p ∈ resets, p.reset = true) (h : Presents memstall l pins) (hlength : pins.length < 2 ^ 64) :
    ∃ rows, PerfTraceCollector.file memstall (resets ++ pins) = Writer.perfTraceCollector.file rows ∧
      Collects l rows 0 0 pins.length ∧
      ∀ (c : Comparator) (w : Writer) (model : List RetireEvent),
        c.accepts (w.file model) (PerfTraceCollector.file memstall (resets ++ pins)) = .ok (decide (Correlated model l)) := by
  have hcollects := collects_of_presents h 0 0
  rw [Nat.zero_add] at hcollects
  have hfile : PerfTraceCollector.file memstall (resets ++ pins) =
      Writer.perfTraceCollector.file (collected memstall 0 0 pins) := by
    have hrun := @text_run memstall pins ⟨0, 0, header.toList ++ ['\n']⟩ ((Nat.zero_add _).trans_lt hlength) le_rfl
    calc PerfTraceCollector.file memstall (resets ++ pins)
        = (pins.foldl (posedge memstall) (resets.foldl (posedge memstall) initial)).text := by
          rw [PerfTraceCollector.file, List.foldl_append]
      _ = (pins.foldl (posedge memstall) ⟨0, 0, header.toList ++ ['\n']⟩).text := by
          rw [initial, resets_run hresets]
      _ = header.toList ++ ['\n'] ++ (collected memstall 0 0 pins).flatMap display := hrun
      _ = Writer.perfTraceCollector.file (collected memstall 0 0 pins) := List.append_assoc _ _ _
  refine ⟨_, hfile, hcollects, ?_⟩
  intro c w model
  rw [hfile, comparators_agree, ← hcollects.instructions, decide_eq_decide.2 (correlated_bare model _)]

/-- an addition, held for two stalled edges behind a bubble -/
theorem collector_exactly_once_stalled : ∃ rows,
    PerfTraceCollector.file 32 [⟨true, true, 0, 0, 0, 0, 0, false⟩, {}, ⟨false, true, 4, 0x00100093, 32, 1, 1, true⟩,
      ⟨false, true, 4, 0x00100093, 32, 1, 1, true⟩, ⟨false, true, 4, 0x00100093, 1, 1, 1, true⟩] =
        Writer.perfTraceCollector.file rows ∧ rows.map RetireEvent.retired = [1] := by
  obtain ⟨rows, hfile, hcollects, -⟩ := collector_exactly_once 32 [⟨true, true, 0, 0, 0, 0, 0, false⟩]
    [{}, ⟨false, true, 4, 0x00100093, 32, 1, 1, true⟩, ⟨false, true, 4, 0x00100093, 32, 1, 1, true⟩,
      ⟨false, true, 4, 0x00100093, 1, 1, 1, true⟩] [⟨0, 0, 4, 0x00100093, 1, 1, true, 0, false, false⟩]
    (by decide) (.bubble rfl rfl (.held rfl rfl rfl rfl (.held rfl rfl rfl rfl (.retired rfl rfl rfl (by decide) .nil))))
    (by decide)
  exact ⟨rows, hfile, hcollects.numbers⟩

end Rv32im
