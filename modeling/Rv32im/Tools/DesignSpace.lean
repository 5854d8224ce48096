/-
The sweeps over cache sizes and latencies (`scripts/run_sensitivity_sweep.py`, `scripts/run_milestone6a.py`).

Both scripts run the program once for each point and keep what they parse of its output. The rates are floating-point
numbers: of them only the lookups and the division by zero are modelled. The reports and files that they write are left
out.

- `Sweep.simulate`: one run. `Sweep.simulateAll`: the loop over the points.
- `SensitivitySweep.main`, `Milestone6a.main`: the scripts, up to their reports.
- `forEach_ok`: a loop returns exactly if every turn does.
-/
import Rv32im.Tools.Milestone4
import Rv32im.Tools.Pareto

namespace Rv32im

namespace Sweep

structure Point where
  name : String
  family : String := ""
  icacheLines : ℕ
  dcacheLines : ℕ
  memoryLatency : ℕ
deriving DecidableEq, Repr

structure Row extends Point where
  stats : Dict

inductive SweepExn where
  | script (e : ScriptExn)
  | zeroDivision
  | stopIteration
deriving DecidableEq, Repr

def command (imem dmem : String) (q : Point) : List String :=
  [imem, "--dmem-hex", dmem, "--enable-caches", "--icache-lines", toString q.icacheLines,
    "--dcache-lines", toString q.dcacheLines, "--memory-latency", toString q.memoryLatency, "--max-insns", "1000000"]

/-- both caches, with one latency -/
def config (icacheLines dcacheLines : ℕ) (latency : BitVec 32) : CpuConfig where
  maxInstructions := 1000000
  icache := { enabled := true, lines := icacheLines, memoryLatency := latency, writeBack := false }
  dcache := { enabled := true, lines := dcacheLines, memoryLatency := latency, writeBack := true }

/-- the options of the command -/
def options (dmem : String) (q : Point) : Options where
  dmemHexPath := dmem
  config := config q.icacheLines q.dcacheLines (BitVec.ofNat 32 q.memoryLatency)

/-- the row of a run; `rated` are the counters of the hit rates -/
def row (script : Script) (rated : List String) (q : Point) (out : String × Option (List Char)) : Except SweepExn Row :=
  let stats := script.parse out.1
  let item (key : String) : Except SweepExn ℤ := (Script.item stats key).mapError .script
  do
    let _ ← item "cycles"
    let retired ← item "retired"
    if retired = 0 then .error .zeroDivision
    else
      let _ ← rated.mapM item
      return { q with stats := stats }

/-- a loop that appends what each turn returns; a turn may fail or not return -/
def forEach {α β ε : Type} (f : α → Option (Except ε β)) : List α → Option (Except ε (List β))
  | [] => some (.ok [])
  | a :: l =>
    match f a with
    | none => none
    | some (.error e) => some (.error e)
    | some (.ok b) => (forEach f l).map fun bs => bs.map fun bs => b :: bs

/-- the loop returns exactly if every turn does -/
theorem forEach_ok {α β ε : Type} {f : α → Option (Except ε β)} {l : List α} {bs : List β} :
    forEach f l = some (.ok bs) ↔ List.Forall₂ (fun a b => f a = some (.ok b)) l bs := by
  induction l generalizing bs with
  | nil =>
    rw [List.forall₂_nil_left_iff]
    simp only [forEach, Option.some.injEq, Except.ok.injEq]
    exact eq_comm
  | cons a l ih =>
    rw [List.forall₂_cons_left_iff, forEach]
    refine ⟨?_, ?_⟩
    · intro h
      split at h
      · cases h
      · cases h
      · rename_i b hb
        obtain ⟨x, hx, hrest⟩ := Option.map_eq_some_iff.1 h
        cases x with
        | error e => cases hrest
        | ok rest => exact ⟨b, rest, hb, ih.1 hx, (Except.ok.inj hrest).symm⟩
    · rintro ⟨b, rest, hb, hrest, rfl⟩
      rw [hb]
      simp only [ih.2 hrest]
      rfl

section

variable (w : World) (fl : Floats) (exe imem dmem : String) (script : Script) (rated : List String)

def simulate (q : Point) : Option (Except SweepExn Row) :=
  (Script.run w fl exe (command imem dmem q)).map fun r => r.mapError .script >>= row script rated q

/-- the rows of the points, up to the first failure -/
def simulateAll (points : List Point) : Option (Except SweepExn (List Row)) :=
  forEach (simulate w fl exe imem dmem script rated) points

end

/-- `next(r for r in rows if …)` -/
def next (p : Row → Bool) (rows : List Row) : Except SweepExn Row :=
  match rows.find? p with
  | some r => .ok r
  | none => .error .stopIteration

def hasKey (ilines dlines latency : ℕ) (r : Row) : Bool :=
  r.icacheLines = ilines ∧ r.dcacheLines = dlines ∧ r.memoryLatency = latency

end Sweep

namespace SensitivitySweep

open Sweep

def cases : List Point :=
  [16, 32, 64, 128, 256, 512].map (fun n => ⟨"I$" ++ toString n, "", n, 64, 3⟩) ++
  [16, 32, 128, 256, 512].map (fun n => ⟨"D$" ++ toString n, "", 64, n, 3⟩) ++
  [1, 2, 4, 5, 8, 12].map (fun lat => ⟨"LAT" ++ toString lat, "", 64, 64, lat⟩) ++
  [(128, 128), (256, 128), (128, 256), (256, 256)].map fun p =>
    ⟨"I" ++ toString p.1 ++ "D" ++ toString p.2, "", p.1, p.2, 3⟩

/-- `one` -/
def one (w : World) (fl : Floats) (exe imem dmem : String) : Point → Option (Except SweepExn Row) :=
  simulate w fl exe imem dmem .sensitivitySweep ["icache_accesses", "icache_misses", "dcache_accesses", "dcache_misses"]

/-- the rows and the row of the baseline -/
def main (w : World) (fl : Floats) (exe imem dmem : String) : Option (Except SweepExn (List Row × Row)) :=
  (simulateAll w fl exe imem dmem .sensitivitySweep
    ["icache_accesses", "icache_misses", "dcache_accesses", "dcache_misses"] cases).map fun r => do
      let rows ← r
      return (rows, ← next (hasKey 64 64 3) rows)

end SensitivitySweep

namespace Milestone6a

open Sweep

def rated : List String := ["icache_hits", "icache_accesses", "dcache_hits", "dcache_accesses"]

def simulate (w : World) (fl : Floats) (exe imem dmem : String) : Point → Option (Except SweepExn Row) :=
  Sweep.simulate w fl exe imem dmem .milestone6a rated

def sizes : List ℕ := [32, 64, 128, 256, 512]

def point (family : String) (i d lat : ℕ) : Point :=
  ⟨"I" ++ toString i ++ "D" ++ toString d ++ "L" ++ toString lat, family, i, d, lat⟩

def mixed : List (ℕ × ℕ × ℕ) := [(128, 64, 2), (256, 64, 2), (256, 128, 2), (256, 256, 2), (512, 64, 2), (256, 256, 5)]

def points : List Point :=
  (sizes.flatMap fun i => sizes.map fun d => point "cache_grid" i d 3) ++
  [1, 2, 4, 5, 8, 12].map (point "latency_sweep" 64 64) ++
  mixed.map fun p => point "mixed" p.1 p.2.1 p.2.2

/-- one turn of the loop that keeps the first row of each key -/
def addUnique (unique : List Row) (r : Row) : List Row :=
  if unique.any (hasKey r.icacheLines r.dcacheLines r.memoryLatency) then unique else unique ++ [r]

def selectedKeys : List (ℕ × ℕ × ℕ) := [(64, 64, 1), (64, 64, 5), (256, 64, 2), (256, 256, 5)]

def cacheDataBytes (r : Row) : ℤ := 4 * (r.icacheLines + r.dcacheLines)

def cycles (r : Row) : ℤ := (r.stats "cycles").getD 0

/-- the frontier of the grid; a position stands for the identity of a row -/
def frontier (rows : List Row) : List Row :=
  let cacheRows := rows.filter fun r => r.family = "cache_grid"
  (pareto (fun k : Fin cacheRows.length => cacheDataBytes (cacheRows.get k)) (fun k => cycles (cacheRows.get k))
    (List.finRange cacheRows.length)).map cacheRows.get

structure Space where
  rows : List Row
  base : Row
  frontier : List Row
  selected : List Row

def main (w : World) (fl : Floats) (exe imem dmem : String) : Option (Except SweepExn Space) :=
  (simulateAll w fl exe imem dmem .milestone6a rated points).map fun r => do
    let rows := (← r).foldl addUnique []
    let base ← next (hasKey 64 64 3) rows
    let selected ← selectedKeys.mapM fun key => next (hasKey key.1 key.2.1 key.2.2) rows
    return { rows := rows, base := base, frontier := frontier rows, selected := selected }

end Milestone6a

end Rv32im
