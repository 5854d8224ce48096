/-
The Dhrystone correlation (`main` of `scripts/run_milestone4.py`).

The script runs the program, checks the signature register in its output, and compares the trace and the counters with
those of the RTL. The reports that it writes are left out. The build is done, and an existing file can be read.

- `Script.run`: the merged output of a program, with the trace file that it leaves.
- `Milestone4.model`: the part in front of the RTL results. `Milestone4.main`: the whole script.
- `readLastCycle_file`: the last cycle of a written trace, and its length.
-/
import Rv32im.Tools.Comparators
import Rv32im.Tools.Stdout

namespace Rv32im

open Text Csv

inductive ScriptExn where
  | calledProcessError (code : ℕ)
  | keyError (key : String)
  | typeError
  | signature (x5 : ℤ)
  | missingResult (path : String)
  | py (e : PyError)
deriving DecidableEq, Repr

namespace Script

/-- `run(cmd, capture=True)`: the merged output and the trace file, unless the program fails -/
def run (w : World) (fl : Floats) (exe : String) (args : List String) :
    Option (Except ScriptExn (String × Option (List Char))) :=
  (Rv32im.main w fl exe args).map fun p =>
    if p.code ≠ 0 then .error (.calledProcessError p.code) else .ok (String.ofList (p.stdout ++ p.stderr), p.trace)

/-- `stats[key]` -/
def item (stats : Dict) (key : String) : Except ScriptExn ℤ :=
  match stats key with
  | some v => .ok v
  | none => .error (.keyError key)

/-- `int(cell)` -/
def int : Cell → Except ScriptExn ℤ
  | some text => (Py.int 10 text).mapError .py
  | none => .error .typeError

/-- `int(row.get(key, 0))` -/
def getInt (row : Row) (key : String) : Except ScriptExn ℤ :=
  match row key with
  | some cell => int cell
  | none => .ok 0

theorem run_ok {w : World} {fl : Floats} {exe : String} {args : List String}
    {out : String × Option (List Char)} : run w fl exe args = some (.ok out) ↔
      ∃ e, Rv32im.main w fl exe args = some e ∧ e.code = 0 ∧ (String.ofList (e.stdout ++ e.stderr), e.trace) = out := by
  unfold run
  rw [Option.map_eq_some_iff]
  refine exists_congr fun e => and_congr_right fun _ => ?_
  split_ifs with hcode
  · exact iff_of_false (fun h => by cases h) fun h => hcode h.1
  · rw [Except.ok.injEq]
    exact (and_iff_right (not_not.1 hcode)).symm

/-- a list of calls that all return -/
theorem mapM_isOk {α β ε : Type} {f : α → Except ε β} {l : List α} (h : ∀ a ∈ l, ∃ b, f a = .ok b) :
    ∃ bs, l.mapM f = .ok bs := by
  induction l with
  | nil => exact ⟨[], rfl⟩
  | cons a l ih =>
    obtain ⟨b, hb⟩ := h a List.mem_cons_self
    obtain ⟨bs, hbs⟩ := ih fun c hc => h c (List.mem_cons_of_mem a hc)
    refine ⟨b :: bs, ?_⟩
    rw [List.mapM_cons, hb, hbs]
    rfl

theorem item_ok {stats : Dict} {key : String} {v : ℤ} (h : stats key = some v) : item stats key = .ok v := by
  unfold item
  rw [h]

end Script

namespace Milestone4

def expectedX5 : ℤ := 0x003fffff

structure Paths where
  imem : String
  dmem : String
  modelTrace : String
  rtlTrace : String
  rtlStats : String
  rtlEvents : String

def command (p : Paths) : List String :=
  [p.imem, "--dmem-hex", p.dmem, "--trace", p.modelTrace, "--enable-caches", "--icache-lines", "64",
    "--dcache-lines", "64", "--memory-latency", "3", "--max-insns", "1000000", "--dump-regs"]

/-- the options of the command -/
def options (p : Paths) : Options where
  tracePath := p.modelTrace
  dmemHexPath := p.dmem
  config :=
    { maxInstructions := 1000000
      icache := { enabled := true, lines := 64, memoryLatency := 3, writeBack := false }
      dcache := { enabled := true, lines := 64, memoryLatency := 3, writeBack := true } }
  dumpRegs := true

/-- the counters that are subscripted in front of the RTL results -/
def printed : List String :=
  ["cycles", "x5", "retired", "icache_misses", "dcache_misses", "dcache_writebacks", "icache_accesses", "dcache_accesses"]

/-- the counters that are compared with the RTL -/
def compared : List String :=
  ["icache_accesses", "icache_hits", "icache_misses", "dcache_accesses", "dcache_hits", "dcache_misses",
    "dcache_writebacks"]

/-- the parsed output, if it has the signature, and the trace file -/
def accept (out : String × Option (List Char)) : Except ScriptExn (Dict × Option (List Char)) :=
  let stats := Script.parse .milestone4 out.1
  if stats "x5" ≠ some expectedX5 then .error (.signature ((stats "x5").getD 0))
  else do
    let _ ← printed.mapM (Script.item stats)
    return (stats, out.2)

def model (w : World) (fl : Floats) (exe : String) (p : Paths) :
    Option (Except ScriptExn (Dict × Option (List Char))) :=
  (Script.run w fl exe (command p)).map fun r => r >>= accept

/-- one turn of the loop over the rows -/
def lastCycle (last : ℤ × ℕ) (r : Row) : Except ScriptExn (ℤ × ℕ) := do
  let cycle ← Script.int (← (Py.item r "cycle").mapError ScriptExn.py)
  return (cycle, last.2 + 1)

/-- the last cycle of a trace, and its number of rows -/
def readLastCycle (text : List Char) : Except ScriptExn (ℤ × ℕ) := (readTrace text).foldlM lastCycle (0, 0)

def readOneCsv (text : List Char) : Row := (readTrace text).headD fun _ => none

structure Statuses where
  arch : String := "WAIT"
  timing : String := "MEASURE"
  cache : String := "MEASURE"
deriving DecidableEq, Repr

/-- a file of the results -/
def existing (w : World) (path : String) : Except ScriptExn (List Char) :=
  match w.files path with
  | some text => .ok text
  | none => .error (.missingResult path)

/-- the counters of the RTL -/
def rtlCounters (row : Row) : List String → Except ScriptExn (List (String × ℤ))
  | [] => .ok []
  | key :: keys => do
    let v ← Script.getInt row key
    return (key, v) :: (← rtlCounters row keys)

/-- the chain of equalities, up to the first one that fails -/
def same (stats : Dict) : List (String × ℤ) → Except ScriptExn Bool
  | [] => .ok true
  | (key, v) :: rest => do
    if (← Script.item stats key) = v then same stats rest else return false

def requireRtl (w : World) (p : Paths) (stats : Dict) (modelTrace : List Char) : Except ScriptExn Statuses := do
  let rtlTrace ← existing w p.rtlTrace
  let rtlStats ← existing w p.rtlStats
  let _ ← existing w p.rtlEvents
  let (ok, _) ← (archCompareStream modelTrace rtlTrace).mapError .py
  let (rtlCycles, _) ← readLastCycle rtlTrace
  let rtl ← rtlCounters (readOneCsv rtlStats) compared
  let cycles ← Script.item stats "cycles"
  let equal ← same stats rtl
  return { arch := if ok then "PASS" else "FAIL"
           timing := if cycles = rtlCycles then "PASS" else "MEASURE"
           cache := if equal then "PASS" else "MEASURE" }

/-- the statuses that the script ends with -/
def main (w : World) (fl : Floats) (exe : String) (p : Paths) (rtl : Bool) :
    Option (Except ScriptExn (Dict × Statuses)) :=
  (model w fl exe p).map fun r => do
    let (stats, trace) ← r
    if rtl = false then return (stats, {})
    else
      match trace with
      | none => .error (.missingResult p.modelTrace)
      | some modelTrace => return (stats, ← requireRtl w p stats modelTrace)

/-- `RESULT: PASS` -/
def passes (s : Statuses) : Prop := s.arch = "PASS" ∧ s.timing = "PASS" ∧ s.cache = "PASS"

/-! ## The RTL results -/

/-- a decimal number is read in base 10 -/
theorem int_decimal (n : ℕ) : Script.int (some (decimal n)) = .ok (n : ℤ) := by
  have hblank : ∀ x ∈ decimal n, isBlank x = false := by
    intro x hx
    obtain ⟨d, hlt, rfl⟩ := mem_decimal hx
    exact (hexDigit_facts d hlt).2.2.2.1
  have hread : readInt 10 (decimal n) = some (n : ℤ) := by
    cases hd : decimal n with
    | nil => exact absurd hd (decimal_ne_nil n)
    | cons c t =>
      have hdigits : ∀ x ∈ c :: t, x.isDigit = true := fun x hx => isDigit_decimal (hd ▸ hx)
      have hsign : ∀ {x : Char}, x.isDigit = false → c ≠ x := by
        rintro x hx rfl
        rw [hdigits c List.mem_cons_self] at hx
        cases hx
      have hvalue : readDigits 10 0 true (c :: t) = some n := by
        rw [readDigits_closed (hsign rfl), readDigits_decimal hdigits, ← hd]
        exact congrArg some Nat.ofDigitChars_ten_toDigits
      have hnat : readNat 10 (c :: t) = some n := by
        unfold readNat
        split <;> simpa using hvalue
      unfold readInt
      rw [trim_eq (hd ▸ hblank)]
      split
      · rename_i heq
        exact absurd (List.cons.inj heq).1 (hsign rfl)
      · rename_i heq
        exact absurd (List.cons.inj heq).1 (hsign rfl)
      · rw [hnat]
        rfl
  show (Py.int 10 (decimal n)).mapError ScriptExn.py = _
  unfold Py.int
  rw [hread]
  rfl

/-- **The last cycle of a written trace**, and its length. -/
theorem readLastCycle_file (w : Writer) (events : List RetireEvent) :
    readLastCycle (w.file events) = .ok ((((events.map RetireEvent.cycle).getLastD 0 : ℕ) : ℤ), events.length) := by
  have hfold : ∀ (events : List RetireEvent) (last rows : ℕ),
      (events.map fun e => dict Writer.columns (w.cells e)).foldlM lastCycle ((last : ℤ), rows) =
        .ok ((((events.map RetireEvent.cycle).getLastD last : ℕ) : ℤ), rows + events.length) := by
    intro events
    induction events with
    | nil => exact fun last rows => rfl
    | cons e events ih =>
      intro last rows
      have hcycle : lastCycle ((last : ℤ), rows) (dict Writer.columns (w.cells e)) = .ok ((e.cycle : ℤ), rows + 1) := by
        unfold lastCycle
        rw [item_of (w.shows e).cycle]
        simp only [Except.mapError, bind, Except.bind, int_decimal, pure, Except.pure]
      rw [List.map_cons, List.foldlM_cons, hcycle]
      simp only [bind, Except.bind]
      rw [ih, List.map_cons, List.getLastD_cons, List.length_cons, Nat.add_assoc, Nat.add_comm 1]
  unfold readLastCycle
  rw [readTrace_file]
  exact (hfold events 0 0).trans (by rw [Nat.zero_add])

/-- **The counters are compared** one by one. -/
theorem counters_same {stats : Dict} {row : Row} {value : String → ℤ} {keys : List String}
    (h : ∀ key ∈ keys, stats key = some (value key)) :
    (∃ rtl, rtlCounters row keys = .ok rtl ∧ same stats rtl = .ok true) ↔
      ∀ key ∈ keys, Script.getInt row key = .ok (value key) := by
  induction keys with
  | nil => exact iff_of_true ⟨[], rfl, rfl⟩ fun key hkey => absurd hkey List.not_mem_nil
  | cons key keys ih =>
    obtain ⟨hkey, hkeys⟩ := List.forall_mem_cons.1 h
    have hitem := Script.item_ok hkey
    rw [List.forall_mem_cons, ← ih hkeys]
    simp only [rtlCounters, Exec.except_bind_ok]
    refine ⟨?_, ?_⟩
    · rintro ⟨rtl, ⟨v, hv, rest, hrest, hrtl⟩, hsame⟩
      obtain rfl := Except.ok.inj hrtl
      rw [same, hitem] at hsame
      simp only [bind, Except.bind] at hsame
      split_ifs at hsame with heq
      · exact ⟨heq ▸ hv, rest, hrest, hsame⟩
      · cases hsame
    · rintro ⟨hv, rest, hrest, hsame⟩
      refine ⟨_, ⟨_, hv, rest, hrest, rfl⟩, ?_⟩
      rw [same, hitem]
      simp only [bind, Except.bind, if_true]
      exact hsame

end Milestone4

end Rv32im
