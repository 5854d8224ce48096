/-
The scripts that compare two retirement traces: `scripts/compare_traces.py`, `scripts/run_milestone3.py`,
`scripts/run_milestone3c.py`, `scripts/run_milestone3d.py`, `scripts/run_milestone4.py`,
`scripts/run_validation_suite.py` and `scripts/run_divider_characterization.py`.

- `CompareTraces.main`: numbers, a list of all mismatches up to a budget, and an exit status.
- `Milestone3.archEqual`: lower-cased texts. `Milestone3c.archEqual`, `Milestone3d.archEqual`: numbers.
- `Milestone4.archCompareStream`: numbers, from two readers at once.
- `ValidationSuite.compareArch`, `DividerCharacterization.compareArch`: numbers, with a note for each field.
- `RetireEvent.Agrees`: equal `pc`, `insn` and `reg_write`, and equal `rd` and `wdata` where a register is written.
- `comparators_agree`: on written traces each of them gives the verdict of `Agrees`, row by row.
-/
import Rv32im.Core.Pairs
import Rv32im.Tools.TraceFile

namespace Rv32im

open Text Csv Pairs

/-! ## Python values -/

/-- the exceptions of the scripts -/
inductive PyError where
  | keyError (key : String)
  | invalidLiteral (base : ℕ) (text : List Char)
  | missingColumns (path : String) (missing : List String)
  | noneAttribute
deriving DecidableEq, Repr

abbrev Py := Except PyError

namespace Py

/-- `r[key]` -/
def item (r : Row) (key : String) : Py Cell :=
  match r key with
  | some cell => .ok cell
  | none => .error (.keyError key)

/-- `r.get(key, default)` -/
def get (r : Row) (key : String) (default : List Char) : Cell := (r key).getD (some default)

/-- `int(text, base)` -/
def int (base : ℕ) (text : List Char) : Py ℤ :=
  match readInt base text with
  | some n => .ok n
  | none => .error (.invalidLiteral base text)

/-- `str(x)` -/
def str : Cell → List Char
  | some text => text
  | none => "None".toList

/-- `text or "0"` -/
def orZero : Cell → List Char
  | some (c :: s) => c :: s
  | _ => ['0']

/-- `x.lower()` -/
def lower : Cell → Py (List Char)
  | some text => .ok (text.map Char.toLower)
  | none => .error .noneAttribute

/-- the operands of an `or`, up to the first true one -/
def any : List (Py Bool) → Py Bool
  | [] => .ok false
  | c :: rest => do
    if ← c then return true else any rest

end Py

/-! ## `compare_traces.py` -/

namespace CompareTraces

def num (text : Cell) : Py ℤ :=
  let text := strip (Py.orZero text)
  if text = [] then .ok 0
  else
    match Py.int 0 text with
    | .ok n => .ok n
    | .error _ => Py.int 16 text

structure Loaded where
  row : ℕ
  cycle : ℤ
  retired : ℤ
  pc : ℤ
  insn : ℤ
  rd : ℤ
  wdata : ℤ
  regWrite : ℤ
deriving DecidableEq, Repr

/-- the columns that must be there, in the order in which a message names them -/
def required : List String := ["insn", "pc", "rd", "reg_write", "wdata"]

def loadRow (rows : List Loaded) (r : Row) : Py (List Loaded) := do
  let cycle ← num (Py.get r "cycle" ['0'])
  let retired ← num (Py.get r "retired" (decimal (rows.length + 1)))
  let pc ← num (← Py.item r "pc")
  let insn ← num (← Py.item r "insn")
  let rd ← num (← Py.item r "rd")
  let wdata ← num (← Py.item r "wdata")
  let regWrite ← num (← Py.item r "reg_write")
  return rows ++ [⟨rows.length + 2, cycle, retired, pc, insn, rd, wdata, regWrite⟩]

def load (path : String) (text : List Char) : Py (List Loaded) :=
  let reader := dictReader text
  let missing := required.filter fun column => column ∉ reader.fieldnames
  if missing ≠ [] then .error (.missingColumns path missing) else reader.rows.foldlM loadRow []

def fmt (x : ℤ) : String := "0x" ++ String.ofList (Text.hex 8 (x % 2 ^ 32).toNat)

structure Args where
  model : String
  rtl : String
  maxMismatches : ℤ := 20
  compareCycle : Bool := false

variable (args : Args)

/-- the fields in which two rows differ -/
def fields (m r : Loaded) : List String :=
  (if m.pc ≠ r.pc then ["pc model=" ++ fmt m.pc ++ " rtl=" ++ fmt r.pc] else []) ++
  (if m.insn ≠ r.insn then ["insn model=" ++ fmt m.insn ++ " rtl=" ++ fmt r.insn] else []) ++
  (if m.regWrite ≠ r.regWrite then
    ["reg_write model=" ++ toString m.regWrite ++ " rtl=" ++ toString r.regWrite] else []) ++
  (if m.regWrite ≠ 0 ∨ r.regWrite ≠ 0 then
    (if m.rd ≠ r.rd then ["rd model=x" ++ toString m.rd ++ " rtl=x" ++ toString r.rd] else []) ++
    (if m.wdata ≠ r.wdata then ["wdata model=" ++ fmt m.wdata ++ " rtl=" ++ fmt r.wdata] else [])
  else []) ++
  (if args.compareCycle = true ∧ m.cycle ≠ r.cycle then
    ["cycle model=" ++ toString m.cycle ++ " rtl=" ++ toString r.cycle] else [])

/-- the loop over the rows: the mismatches so far, and what it prints -/
def compareRows : ℕ → ℕ → List Loaded → List Loaded → ℕ × List String
  | i, mismatches, m :: model, r :: rtl =>
    if fields args m r = [] then compareRows (i + 1) mismatches model rtl
    else
      let shown := ("\nMismatch at retirement #" ++ toString (i + 1) ++ ":") ::
        (fields args m r).map fun field => "  " ++ field
      if ((mismatches + 1 : ℕ) : ℤ) ≥ args.maxMismatches then
        (mismatches + 1, shown ++ ["\nStopping after " ++ toString (mismatches + 1) ++ " mismatches."])
      else
        let rest := compareRows (i + 1) (mismatches + 1) model rtl
        (rest.1, shown ++ rest.2)
  | _, mismatches, _, _ => (mismatches, [])

/-- the printed lines and the exit status -/
def main (modelFile rtlFile : List Char) : Py (List String × ℕ) := do
  let model ← load args.model modelFile
  let rtl ← load args.rtl rtlFile
  let n := min model.length rtl.length
  let title := ["RV32IM architectural correlation", "================================",
    "model retired : " ++ toString model.length, "rtl retired   : " ++ toString rtl.length]
  let compared := compareRows args 0 0 model rtl
  let (mismatches, shown) :=
    if model.length ≠ rtl.length then
      (compared.1 + 1, compared.2 ++
        ["\nLength mismatch: model=" ++ toString model.length ++ ", rtl=" ++ toString rtl.length])
    else compared
  if mismatches = 0 then
    return (title ++ shown ++ ["\nPASS: " ++ toString n ++ " retired instructions match architecturally.",
      if args.compareCycle then "PASS: retirement-cycle timing also matches RTL exactly."
      else "Use --compare-cycle to include Milestone 2 timing correlation."], 0)
  else return (title ++ shown ++ ["\nFAIL: " ++ toString mismatches ++ " mismatch(es) detected."], 1)

end CompareTraces

/-! ## `run_milestone3.py`, `run_milestone3c.py`, `run_milestone3d.py`, `run_milestone4.py` -/

def readTrace (text : List Char) : List Row := (dictReader text).rows

/-- `a.get(key, '').lower()` of two rows, compared -/
def textDiffers (a b : Row) (key : String) : Py Bool := do
  return (← Py.lower (Py.get a key [])) ≠ (← Py.lower (Py.get b key []))

namespace Milestone3

def compareRow (a b : Row) : Py (Option Bool) := do
  if ← textDiffers a b "pc" then return some false
  if ← textDiffers a b "insn" then return some false
  let aWr ← Py.lower (Py.get a "reg_write" [])
  let bWr ← Py.lower (Py.get b "reg_write" [])
  if aWr ≠ bWr then return some false
  if aWr ∉ [['0'], [], "false".toList] then
    if ← textDiffers a b "rd" then return some false
    if ← textDiffers a b "wdata" then return some false
  return none

def archEqual (model rtl : List Row) : Py Bool :=
  if model.length ≠ rtl.length then .ok false else forPairs (fun _ => compareRow) true 0 model rtl

end Milestone3

def ival (x : Cell) : Py ℤ := Py.int 0 (Py.str x)

/-- `ival(m[key]) != ival(r[key])` -/
def ivalDiffers (m r : Row) (key : String) : Py Bool := do
  return (← ival (← Py.item m key)) ≠ (← ival (← Py.item r key))

/-- the row comparison of three scripts, with the notes of either -/
def compareIvals (mismatch registerMismatch : ℕ → String) (i : ℕ) (m r : Row) : Py (Option (Bool × String)) := do
  if ← Py.any [ivalDiffers m r "pc", ivalDiffers m r "insn", ivalDiffers m r "reg_write"] then
    return some (false, mismatch (i + 1))
  if (← ival (← Py.item m "reg_write")) ≠ 0 then
    if ← Py.any [ivalDiffers m r "rd", ivalDiffers m r "wdata"] then
      return some (false, registerMismatch (i + 1))
  return none

def retirementsMatch (n : ℕ) : String := toString n ++ " retirements match"

namespace Milestone3c

def archEqual (model rtl : List Row) : Py (Bool × String) :=
  if model.length ≠ rtl.length then
    .ok (false, "retired model=" ++ toString model.length ++ " rtl=" ++ toString rtl.length)
  else
    forPairs (compareIvals (fun i => "mismatch at retirement " ++ toString i)
      fun i => "register mismatch at retirement " ++ toString i) (true, retirementsMatch model.length) 0 model rtl

end Milestone3c

namespace Milestone3d

def archEqual (model rtl : List Row) : Py (Bool × String) := Milestone3c.archEqual model rtl

end Milestone3d

namespace Milestone4

def archCompareStream (modelFile rtlFile : List Char) : Py (Bool × String) :=
  streamPairs (compareIvals (fun count => "architectural mismatch at retirement " ++ toString count)
      fun count => "register mismatch at retirement " ++ toString count)
    (fun count => (true, retirementsMatch count))
    (fun count => (false, "retirement-count mismatch after " ++ toString count))
    0 (readTrace modelFile) (readTrace rtlFile)

end Milestone4

/-! ## `run_validation_suite.py`, `run_divider_characterization.py` -/

namespace ValidationSuite

def num (text : Cell) : Py ℤ := Py.int 0 (strip (Py.orZero text))

structure Loaded where
  cycle : ℤ
  pc : ℤ
  insn : ℤ
  rd : ℤ
  wdata : ℤ
  regWrite : ℤ
deriving DecidableEq, Repr

def loadRow (r : Row) : Py Loaded := do
  let cycle ← num (Py.get r "cycle" ['0'])
  let pc ← num (← Py.item r "pc")
  let insn ← num (← Py.item r "insn")
  let rd ← num (← Py.item r "rd")
  let wdata ← num (← Py.item r "wdata")
  let regWrite ← num (← Py.item r "reg_write")
  return ⟨cycle, pc, insn, rd, wdata, regWrite⟩

def loadTrace (text : List Char) : Py (List Loaded) := (readTrace text).mapM loadRow

def compareRow (i : ℕ) (m r : Loaded) : Option (Bool × String) :=
  if m.pc ≠ r.pc then some (false, "#" ++ toString i ++ " PC mismatch")
  else if m.insn ≠ r.insn then some (false, "#" ++ toString i ++ " instruction mismatch")
  else if m.regWrite ≠ r.regWrite then some (false, "#" ++ toString i ++ " reg_write mismatch")
  else if m.regWrite ≠ 0 ∧ (m.rd ≠ r.rd ∨ m.wdata ≠ r.wdata) then
    some (false, "#" ++ toString i ++ " register result mismatch")
  else none

def compareArch (model rtl : List Loaded) : Py (Bool × String) :=
  if model.length ≠ rtl.length then
    .ok (false, "retired count model=" ++ toString model.length ++ " rtl=" ++ toString rtl.length)
  else forPairs (fun i m r => .ok (compareRow i m r)) (true, retirementsMatch model.length) 1 model rtl

end ValidationSuite

namespace DividerCharacterization

def compareArch (model rtl : List ValidationSuite.Loaded) : Py (Bool × String) := ValidationSuite.compareArch model rtl

end DividerCharacterization

/-! ## Reading written numbers -/

section Numbers

variable {s t : List Char} {n k : ℕ}

theorem orZero_numeral (h : Numeral s n) : Py.orZero (some s) = s := by
  cases s with
  | nil => exact nomatch h.value
  | cons c s => rfl

theorem int_numeral (h : Numeral s n) : Py.int 0 s = .ok (n : ℤ) := by
  unfold Py.int
  rw [h.value]

theorem ival_numeral (h : Numeral s n) : ival (some s) = .ok (n : ℤ) := int_numeral h

theorem ValidationSuite.num_numeral (h : Numeral s n) : ValidationSuite.num (some s) = .ok (n : ℤ) := by
  unfold ValidationSuite.num
  rw [orZero_numeral h, h.strip, int_numeral h]

theorem CompareTraces.num_numeral (h : Numeral s n) : CompareTraces.num (some s) = .ok (n : ℤ) := by
  have hne : s ≠ [] := by
    rintro rfl
    exact nomatch h.value
  unfold CompareTraces.num
  rw [orZero_numeral h, h.strip]
  simp only [if_neg hne, int_numeral h]

theorem lower_numeral (h : Numeral s n) : Py.lower (some s) = .ok s := congrArg Except.ok h.lower

theorem item_of {r : Row} {key : String} {cell : Cell} (h : r key = some cell) : Py.item r key = .ok cell := by
  unfold Py.item
  rw [h]

theorem get_of {r : Row} {key : String} {cell : Cell} (h : r key = some cell) (default : List Char) :
    Py.get r key default = cell := by
  unfold Py.get
  rw [h]
  rfl

theorem any_ok (l : List Bool) : Py.any (l.map .ok) = .ok (l.any id) := by
  induction l with
  | nil => rfl
  | cons b l ih =>
    cases b with
    | true => rfl
    | false => exact ih

variable {a b : Row} {key : String}

theorem ivalDiffers_numeral (ha : a key = some (some s)) (hs : Numeral s n) (hb : b key = some (some t))
    (ht : Numeral t k) : ivalDiffers a b key = .ok (decide (n ≠ k)) := by
  unfold ivalDiffers
  rw [item_of ha, item_of hb]
  simp only [bind, Except.bind, ival_numeral hs, ival_numeral ht, pure, Except.pure, ne_eq, Nat.cast_inj]

theorem textDiffers_numeral (ha : a key = some (some s)) (hs : Numeral s n) (hb : b key = some (some t))
    (ht : Numeral t k) : textDiffers a b key = .ok (decide (s ≠ t)) := by
  unfold textDiffers
  rw [get_of ha, get_of hb, lower_numeral hs, lower_numeral ht]
  rfl

end Numbers

/-! ## The rows that agree -/

def RetireEvent.Agrees (m r : RetireEvent) : Prop :=
  m.pc = r.pc ∧ m.insn = r.insn ∧ m.regWrite = r.regWrite ∧ (m.regWrite = true → m.rd = r.rd ∧ m.wdata = r.wdata)

instance (m r : RetireEvent) : Decidable (m.Agrees r) := by
  unfold RetireEvent.Agrees
  infer_instance

/-- a comparison of two columns decides whether two retirements differ there -/
structure Compares (differs : String → Py Bool) (m r : RetireEvent) : Prop where
  pc : differs "pc" = .ok (decide (m.pc ≠ r.pc))
  insn : differs "insn" = .ok (decide (m.insn ≠ r.insn))
  regWrite : differs "reg_write" = .ok (decide (m.regWrite ≠ r.regWrite))
  rd : differs "rd" = .ok (decide (m.rd ≠ r.rd))
  wdata : differs "wdata" = .ok (decide (m.wdata ≠ r.wdata))

section Rows

variable {a b : Row} {m r : RetireEvent}

theorem numeral_bit (b : Bool) : Numeral (bit b) b.toNat := numeral_decimal b.toNat

theorem toNat_inj (b c : Bool) : b.toNat = c.toNat ↔ b = c := by
  cases b <;> cases c <;> decide

theorem bit_inj (b c : Bool) : bit b = bit c ↔ b = c := (decimal_inj _ _).trans (toNat_inj b c)

theorem ivalDiffers_compares (ha : Shows a m) (hb : Shows b r) : Compares (ivalDiffers a b) m r := by
  have hword : ∀ x y : BitVec 32, decide (x.toNat ≠ y.toNat) = decide (x ≠ y) := fun x y =>
    decide_eq_decide.2 (not_congr BitVec.toNat_inj)
  have hbit : ∀ x y : Bool, decide (x.toNat ≠ y.toNat) = decide (x ≠ y) := fun x y =>
    decide_eq_decide.2 (not_congr (toNat_inj x y))
  constructor
  · rw [ivalDiffers_numeral ha.pc (numeral_word _) hb.pc (numeral_word _), hword]
  · rw [ivalDiffers_numeral ha.insn (numeral_word _) hb.insn (numeral_word _), hword]
  · rw [ivalDiffers_numeral ha.regWrite (numeral_bit _) hb.regWrite (numeral_bit _), hbit]
  · exact ivalDiffers_numeral ha.rd (numeral_decimal _) hb.rd (numeral_decimal _)
  · rw [ivalDiffers_numeral ha.wdata (numeral_word _) hb.wdata (numeral_word _), hword]

theorem textDiffers_compares (ha : Shows a m) (hb : Shows b r) : Compares (textDiffers a b) m r := by
  have hword : ∀ x y : BitVec 32, decide (word x ≠ word y) = decide (x ≠ y) := fun x y =>
    decide_eq_decide.2 (not_congr (word_inj x y))
  constructor
  · rw [textDiffers_numeral ha.pc (numeral_word _) hb.pc (numeral_word _), hword]
  · rw [textDiffers_numeral ha.insn (numeral_word _) hb.insn (numeral_word _), hword]
  · rw [textDiffers_numeral ha.regWrite (numeral_bit _) hb.regWrite (numeral_bit _)]
    exact congrArg Except.ok (decide_eq_decide.2 (not_congr (bit_inj _ _)))
  · rw [textDiffers_numeral ha.rd (numeral_decimal _) hb.rd (numeral_decimal _)]
    exact congrArg Except.ok (decide_eq_decide.2 (not_congr (decimal_inj _ _)))
  · rw [textDiffers_numeral ha.wdata (numeral_word _) hb.wdata (numeral_word _), hword]

theorem compareIvals_judges (ha : Shows a m) (hb : Shows b r) (f g : ℕ → String) (i : ℕ) :
    m.Agrees r ∧ compareIvals f g i a b = .ok none ∨
      ¬ m.Agrees r ∧ ∃ v, compareIvals f g i a b = .ok (some v) ∧ v.1 = false := by
  have h := ivalDiffers_compares ha hb
  have hfront : Py.any [ivalDiffers a b "pc", ivalDiffers a b "insn", ivalDiffers a b "reg_write"] =
      .ok (decide ¬(m.pc = r.pc ∧ m.insn = r.insn ∧ m.regWrite = r.regWrite)) := by
    rw [h.pc, h.insn, h.regWrite]
    refine (any_ok [decide (m.pc ≠ r.pc), decide (m.insn ≠ r.insn), decide (m.regWrite ≠ r.regWrite)]).trans ?_
    simp
  have hback : Py.any [ivalDiffers a b "rd", ivalDiffers a b "wdata"] =
      .ok (decide ¬(m.rd = r.rd ∧ m.wdata = r.wdata)) := by
    rw [h.rd, h.wdata]
    refine (any_ok [decide (m.rd ≠ r.rd), decide (m.wdata ≠ r.wdata)]).trans ?_
    simp
  unfold compareIvals
  rw [hfront, hback, item_of ha.regWrite]
  simp only [bind, Except.bind, ival_numeral (numeral_bit m.regWrite)]
  by_cases hsame : m.pc = r.pc ∧ m.insn = r.insn ∧ m.regWrite = r.regWrite
  · cases hw : m.regWrite with
    | false => simp [RetireEvent.Agrees, hsame, ← hw, pure, Except.pure]
    | true =>
      have hw' : r.regWrite = true := hsame.2.2.symm.trans hw
      by_cases hvalue : m.rd = r.rd ∧ m.wdata = r.wdata
      · refine Or.inl ⟨⟨hsame.1, hsame.2.1, hsame.2.2, fun _ => hvalue⟩, ?_⟩
        simp [hsame, hvalue, hw', pure, Except.pure]
      · refine Or.inr ⟨fun hagrees => hvalue (hagrees.2.2.2 hw), (false, g (i + 1)), ?_, rfl⟩
        simp [hsame, hvalue, hw', pure, Except.pure]
  · refine Or.inr ⟨fun hagrees => hsame ⟨hagrees.1, hagrees.2.1, hagrees.2.2.1⟩, (false, f (i + 1)), ?_, rfl⟩
    simp [hsame, pure, Except.pure]

/-- only a row that writes no register has its `rd` and `wdata` ignored -/
theorem written_iff (b : Bool) : bit b ∉ [['0'], [], "false".toList] ↔ b = true := by
  have hfalse : bit false = ['0'] := rfl
  have htrue : bit true = ['1'] := rfl
  cases b with
  | false => simp [hfalse]
  | true => simp [htrue]

theorem Milestone3.compareRow_judges (ha : Shows a m) (hb : Shows b r) :
    m.Agrees r ∧ Milestone3.compareRow a b = .ok none ∨
      ¬ m.Agrees r ∧ ∃ v, Milestone3.compareRow a b = .ok (some v) ∧ v = false := by
  have h := textDiffers_compares ha hb
  unfold Milestone3.compareRow
  rw [h.pc, h.insn, h.rd, h.wdata, get_of ha.regWrite, get_of hb.regWrite, lower_numeral (numeral_bit m.regWrite),
    lower_numeral (numeral_bit r.regWrite)]
  simp only [bind, Except.bind, pure, Except.pure, ne_eq, bit_inj, written_iff]
  by_cases hpc : m.pc = r.pc
  swap
  · exact Or.inr ⟨fun hagrees => hpc hagrees.1, false, by simp [hpc], rfl⟩
  by_cases hinsn : m.insn = r.insn
  swap
  · exact Or.inr ⟨fun hagrees => hinsn hagrees.2.1, false, by simp [hpc, hinsn], rfl⟩
  by_cases hwrite : m.regWrite = r.regWrite
  swap
  · exact Or.inr ⟨fun hagrees => hwrite hagrees.2.2.1, false, by simp [hpc, hinsn, hwrite], rfl⟩
  by_cases hvalue : m.regWrite = true → m.rd = r.rd ∧ m.wdata = r.wdata
  · refine Or.inl ⟨⟨hpc, hinsn, hwrite, hvalue⟩, ?_⟩
    cases hw : m.regWrite with
    | false => simp [hpc, hinsn, ← hwrite, hw]
    | true => simp [hpc, hinsn, ← hwrite, hw, hvalue hw]
  · refine Or.inr ⟨fun hagrees => hvalue hagrees.2.2.2, false, ?_, rfl⟩
    obtain ⟨hw, hdiffers⟩ := Classical.not_imp.1 hvalue
    by_cases hrd : m.rd = r.rd
    · have hwdata : m.wdata ≠ r.wdata := fun heq => hdiffers ⟨hrd, heq⟩
      simp [hpc, hinsn, ← hwrite, hw, hrd, hwdata]
    · simp [hpc, hinsn, ← hwrite, hw, hrd]

end Rows

/-! ## The traces as the scripts load them -/

/-- equal lengths, and every two rows of one position agree -/
def Correlated (model rtl : List RetireEvent) : Prop :=
  model.length = rtl.length ∧ ∀ p ∈ model.zip rtl, p.1.Agrees p.2

instance (model rtl : List RetireEvent) : Decidable (Correlated model rtl) := by
  unfold Correlated
  infer_instance

theorem correlated_iff (model rtl : List RetireEvent) :
    Correlated model rtl ↔ List.Forall₂ RetireEvent.Agrees model rtl := by
  rw [List.forall₂_iff_zip]
  exact and_congr_right fun _ => Prod.forall

theorem readTrace_file (w : Writer) (events : List RetireEvent) :
    readTrace (w.file events) = events.map fun e => dict Writer.columns (w.cells e) :=
  congrArg DictReader.rows (w.dictReader_file events)

namespace ValidationSuite

def loaded (e : RetireEvent) : Loaded :=
  ⟨e.cycle, e.pc.toNat, e.insn.toNat, e.rd, e.wdata.toNat, e.regWrite.toNat⟩

theorem loadRow_shows {row : Row} {e : RetireEvent} (h : Shows row e) : loadRow row = .ok (loaded e) := by
  unfold loadRow
  rw [get_of h.cycle, item_of h.pc, item_of h.insn, item_of h.rd, item_of h.wdata, item_of h.regWrite]
  simp only [bind, Except.bind, pure, Except.pure, num_numeral (numeral_decimal e.cycle),
    num_numeral (numeral_word e.pc), num_numeral (numeral_word e.insn), num_numeral (numeral_decimal e.rd),
    num_numeral (numeral_word e.wdata), num_numeral (numeral_bit e.regWrite)]
  rfl

theorem loadTrace_file (w : Writer) (events : List RetireEvent) :
    loadTrace (w.file events) = .ok (events.map loaded) := by
  unfold loadTrace
  rw [readTrace_file]
  induction events with
  | nil => rfl
  | cons e events ih =>
    rw [List.map_cons, List.mapM_cons, ih, loadRow_shows (w.shows e)]
    rfl

theorem compareRow_judges (i : ℕ) (m r : RetireEvent) :
    m.Agrees r ∧ compareRow i (loaded m) (loaded r) = none ∨
      ¬ m.Agrees r ∧ ∃ v, compareRow i (loaded m) (loaded r) = some v ∧ v.1 = false := by
  have hwrite : ((m.regWrite.toNat : ℤ) = 0) ↔ m.regWrite = false := by
    cases m.regWrite <;> decide
  unfold compareRow
  simp only [loaded, Nat.cast_inj, BitVec.toNat_inj, toNat_inj, ne_eq, hwrite, Bool.not_eq_false]
  by_cases hpc : m.pc = r.pc
  swap
  · exact Or.inr ⟨fun h => hpc h.1, _, if_pos hpc, rfl⟩
  rw [if_neg (not_not.2 hpc)]
  by_cases hinsn : m.insn = r.insn
  swap
  · exact Or.inr ⟨fun h => hinsn h.2.1, _, if_pos hinsn, rfl⟩
  rw [if_neg (not_not.2 hinsn)]
  by_cases hreg : m.regWrite = r.regWrite
  swap
  · exact Or.inr ⟨fun h => hreg h.2.2.1, _, if_pos hreg, rfl⟩
  rw [if_neg (not_not.2 hreg)]
  by_cases hvalue : m.regWrite = true ∧ (¬ m.rd = r.rd ∨ ¬ m.wdata = r.wdata)
  · exact Or.inr ⟨fun h => not_and_or.2 hvalue.2 (h.2.2.2 hvalue.1), _, if_pos hvalue, rfl⟩
  · refine Or.inl ⟨⟨hpc, hinsn, hreg, fun hw => ?_⟩, if_neg hvalue⟩
    by_contra hdiffers
    exact hvalue ⟨hw, not_and_or.1 hdiffers⟩

end ValidationSuite

namespace CompareTraces

/-- a loaded row with the values of a retirement -/
structure Holds (l : Loaded) (e : RetireEvent) : Prop where
  pc : l.pc = e.pc.toNat
  insn : l.insn = e.insn.toNat
  rd : l.rd = e.rd
  wdata : l.wdata = e.wdata.toNat
  regWrite : l.regWrite = e.regWrite.toNat

/-- what is loaded of a retirement -/
def loaded (row : ℕ) (e : RetireEvent) : Loaded :=
  ⟨row, e.cycle, e.retired, e.pc.toNat, e.insn.toNat, e.rd, e.wdata.toNat, e.regWrite.toNat⟩

theorem loaded_holds (row : ℕ) (e : RetireEvent) : Holds (loaded row e) e := ⟨rfl, rfl, rfl, rfl, rfl⟩

theorem loadRow_shows {row : Row} {e : RetireEvent} (h : Shows row e) (rows : List Loaded) :
    loadRow rows row = .ok (rows ++ [loaded (rows.length + 2) e]) := by
  unfold loadRow
  rw [get_of h.cycle, get_of h.retired, item_of h.pc, item_of h.insn, item_of h.rd, item_of h.wdata,
    item_of h.regWrite]
  simp only [bind, Except.bind, pure, Except.pure, num_numeral (numeral_decimal e.cycle),
    num_numeral (numeral_decimal e.retired), num_numeral (numeral_word e.pc), num_numeral (numeral_word e.insn),
    num_numeral (numeral_decimal e.rd), num_numeral (numeral_word e.wdata), num_numeral (numeral_bit e.regWrite)]
  rfl

/-- the rows behind those already loaded, which are numbered on -/
theorem foldlM_shows (w : Writer) (events : List RetireEvent) (rows : List Loaded) :
    (events.map fun e => dict Writer.columns (w.cells e)).foldlM loadRow rows =
      .ok (rows ++ events.mapIdx fun i e => loaded (rows.length + i + 2) e) := by
  induction events generalizing rows with
  | nil =>
    rw [List.mapIdx_nil, List.append_nil]
    rfl
  | cons e events ih =>
    rw [List.map_cons, List.foldlM_cons, loadRow_shows (w.shows e)]
    refine (ih _).trans ?_
    rw [List.mapIdx_cons, List.append_assoc, List.singleton_append, List.length_append, List.length_singleton]
    simp only [Nat.add_zero, Nat.add_assoc, Nat.add_comm 1]

/-- **A written trace is loaded:** the values of each retirement, with the number of its line. -/
theorem load_file (w : Writer) (path : String) (events : List RetireEvent) :
    load path (w.file events) = .ok (events.mapIdx fun i e => loaded (i + 2) e) := by
  have hrequired : (required.filter fun column => decide (column ∉ Writer.columns)) = [] := by
    simp [required, Writer.columns]
  unfold load
  rw [w.dictReader_file]
  simp only [hrequired, ne_eq, not_true_eq_false, if_false]
  refine (foldlM_shows w events []).trans ?_
  simp only [List.nil_append, List.length_nil, Nat.zero_add]

theorem loaded_all (events : List RetireEvent) :
    List.Forall₂ Holds (events.mapIdx fun i e => loaded (i + 2) e) events := by
  refine List.forall₂_iff_get.2 ⟨List.length_mapIdx, fun i hi hi' => ?_⟩
  rw [List.get_eq_getElem, List.getElem_mapIdx]
  exact loaded_holds _ _

variable {args : Args}

/-- without cycles, two rows differ in no field exactly where the retirements agree -/
theorem fields_eq_nil (hcycle : args.compareCycle = false) {l k : Loaded} {m r : RetireEvent} (hl : Holds l m)
    (hk : Holds k r) : fields args l k = [] ↔ m.Agrees r := by
  unfold fields RetireEvent.Agrees
  rw [hl.pc, hl.insn, hl.rd, hl.wdata, hl.regWrite, hk.pc, hk.insn, hk.rd, hk.wdata, hk.regWrite, hcycle]
  simp [BitVec.toNat_inj, toNat_inj]
  refine fun _ _ hreg => ?_
  rw [hreg, or_self]

/-- the loop counts a mismatch exactly where two rows disagree -/
theorem compareRows_eq_zero (hcycle : args.compareCycle = false) {model rtl : List Loaded} {m r : List RetireEvent}
    (hm : List.Forall₂ Holds model m) (hr : List.Forall₂ Holds rtl r) (i mismatches : ℕ) :
    (compareRows args i mismatches model rtl).1 = 0 ↔ mismatches = 0 ∧ ∀ p ∈ m.zip r, p.1.Agrees p.2 := by
  induction hm generalizing rtl r i mismatches with
  | nil => simp [compareRows]
  | @cons l d model m hl hm ih =>
    cases hr with
    | nil => simp [compareRows]
    | @cons k e rtl r hk hr =>
      rw [compareRows, List.zip_cons_cons, List.forall_mem_cons]
      by_cases hagree : d.Agrees e
      · rw [if_pos ((fields_eq_nil hcycle hl hk).2 hagree), ih hr, and_iff_right hagree]
      · rw [if_neg fun h => hagree ((fields_eq_nil hcycle hl hk).1 h)]
        refine iff_of_false ?_ fun h => hagree h.2.1
        -- once a mismatch is counted, neither the budget nor the rows behind it take it back
        dsimp only
        split_ifs
        · exact not_false
        · exact fun h => Nat.succ_ne_zero mismatches ((ih hr (i + 1) (mismatches + 1)).1 h).1

theorem main_file (args : Args) (hcycle : args.compareCycle = false) (w w' : Writer)
    (model rtl : List RetireEvent) :
    ∃ out, main args (w.file model) (w'.file rtl) = .ok (out, if Correlated model rtl then 0 else 1) := by
  have hmodel := loaded_all model
  have hrtl := loaded_all rtl
  have hcount := compareRows_eq_zero hcycle hmodel hrtl 0 0
  rw [eq_self, true_and] at hcount
  unfold main Correlated
  rw [load_file, load_file]
  simp only [bind, Except.bind, pure, Except.pure, hmodel.length_eq, hrtl.length_eq]
  by_cases hlen : model.length = rtl.length
  · simp only [hlen, ne_eq, not_true_eq_false, if_false, true_and]
    by_cases hall : ∀ p ∈ model.zip rtl, p.1.Agrees p.2
    · rw [if_pos (hcount.2 hall), if_pos hall]
      exact ⟨_, rfl⟩
    · rw [if_neg fun h => hall (hcount.1 h), if_neg hall]
      exact ⟨_, rfl⟩
  · simp only [hlen, ne_eq, not_false_eq_true, if_true, false_and, if_false]
    rw [if_neg (Nat.succ_ne_zero _)]
    exact ⟨_, rfl⟩

end CompareTraces

/-! ## One oracle -/

/-- a comparison of the lengths, and a loop behind it -/
theorem pairs_verdict {α γ : Type} {body : ℕ → α → α → Py (Option γ)} {accepted : γ → Bool} {f g : RetireEvent → α}
    (h : Judges (fun i m r => body i (f m) (g r)) accepted RetireEvent.Agrees) (refused after : γ)
    (hrefused : accepted refused = false) (hafter : accepted after = true) (i : ℕ) (model rtl : List RetireEvent) :
    ∃ v, (if (model.map f).length ≠ (rtl.map g).length then .ok refused
      else forPairs body after i (model.map f) (rtl.map g)) = .ok v ∧ accepted v = decide (Correlated model rtl) := by
  rw [List.length_map, List.length_map, forPairs_map]
  by_cases hlen : model.length = rtl.length
  · obtain ⟨v, hrun, hiff⟩ := forPairs_verdict h hafter i hlen
    refine ⟨v, ?_, ?_⟩
    · rw [if_neg (not_not.2 hlen)]
      exact hrun
    · rw [Bool.eq_iff_iff, hiff, decide_eq_true_iff, correlated_iff]
  · refine ⟨refused, if_pos hlen, ?_⟩
    rw [hrefused, eq_comm, decide_eq_false_iff_not]
    exact fun hall => hlen hall.1

theorem compareIvals_verdict (w w' : Writer) (f g : ℕ → String) :
    Judges (fun i m r => compareIvals f g i (dict Writer.columns (w.cells m)) (dict Writer.columns (w'.cells r)))
      Prod.fst RetireEvent.Agrees :=
  fun i m r => compareIvals_judges (w.shows m) (w'.shows r) f g i

theorem Milestone3.archEqual_file (w w' : Writer) (model rtl : List RetireEvent) :
    Milestone3.archEqual (readTrace (w.file model)) (readTrace (w'.file rtl)) =
      .ok (decide (Correlated model rtl)) := by
  have hjudges : Judges (fun (_ : ℕ) m r =>
      Milestone3.compareRow (dict Writer.columns (w.cells m)) (dict Writer.columns (w'.cells r))) id
        RetireEvent.Agrees := fun _ m r => Milestone3.compareRow_judges (w.shows m) (w'.shows r)
  obtain ⟨v, hrun, hv⟩ := pairs_verdict hjudges false true rfl rfl 0 model rtl
  rw [readTrace_file, readTrace_file, ← hv]
  exact hrun

theorem Milestone3c.archEqual_file (w w' : Writer) (model rtl : List RetireEvent) :
    ∃ v, Milestone3c.archEqual (readTrace (w.file model)) (readTrace (w'.file rtl)) = .ok v ∧
      v.1 = decide (Correlated model rtl) := by
  rw [readTrace_file, readTrace_file]
  exact pairs_verdict (compareIvals_verdict w w' _ _) _ _ rfl rfl 0 model rtl

theorem Milestone4.archCompareStream_file (w w' : Writer) (model rtl : List RetireEvent) :
    ∃ v, Milestone4.archCompareStream (w.file model) (w'.file rtl) = .ok v ∧
      v.1 = decide (Correlated model rtl) := by
  unfold Milestone4.archCompareStream
  rw [readTrace_file, readTrace_file, streamPairs_map]
  obtain ⟨v, hrun, hiff⟩ := streamPairs_verdict (compareIvals_verdict w w'
      (fun count => "architectural mismatch at retirement " ++ toString count)
      fun count => "register mismatch at retirement " ++ toString count)
    (fun count => (true, retirementsMatch count))
    (fun count => (false, "retirement-count mismatch after " ++ toString count))
    (fun _ => rfl) (fun _ => rfl) 0 model rtl
  refine ⟨v, hrun, ?_⟩
  rw [Bool.eq_iff_iff, hiff, decide_eq_true_iff, correlated_iff]

theorem ValidationSuite.compareArch_loaded (model rtl : List RetireEvent) :
    ∃ v, ValidationSuite.compareArch (model.map loaded) (rtl.map loaded) = .ok v ∧
      v.1 = decide (Correlated model rtl) := by
  have hjudges : Judges (fun i m r => (.ok (compareRow i (loaded m) (loaded r)) : Py _)) Prod.fst
      RetireEvent.Agrees := by
    intro i m r
    rcases compareRow_judges i m r with ⟨hagree, hrow⟩ | ⟨hagree, v, hrow, hv⟩
    · exact Or.inl ⟨hagree, congrArg Except.ok hrow⟩
    · exact Or.inr ⟨hagree, v, congrArg Except.ok hrow, hv⟩
  exact pairs_verdict hjudges _ _ rfl rfl 1 model rtl

inductive Comparator where
  | compareTraces (modelPath rtlPath : String) (maxMismatches : ℤ)
  | milestone3
  | milestone3c
  | milestone3d
  | milestone4
  | validationSuite
  | dividerCharacterization
deriving DecidableEq, Repr

/-- whether a script accepts two files -/
def Comparator.accepts (modelFile rtlFile : List Char) : Comparator → Py Bool
  | compareTraces modelPath rtlPath maxMismatches => do
    let (_, status) ← CompareTraces.main { model := modelPath, rtl := rtlPath, maxMismatches } modelFile rtlFile
    return status = 0
  | milestone3 => Milestone3.archEqual (readTrace modelFile) (readTrace rtlFile)
  | milestone3c => return (← Milestone3c.archEqual (readTrace modelFile) (readTrace rtlFile)).1
  | milestone3d => return (← Milestone3d.archEqual (readTrace modelFile) (readTrace rtlFile)).1
  | milestone4 => return (← Milestone4.archCompareStream modelFile rtlFile).1
  | validationSuite => do
    let model ← ValidationSuite.loadTrace modelFile
    let rtl ← ValidationSuite.loadTrace rtlFile
    return (← ValidationSuite.compareArch model rtl).1
  | dividerCharacterization => do
    let model ← ValidationSuite.loadTrace modelFile
    let rtl ← ValidationSuite.loadTrace rtlFile
    return (← DividerCharacterization.compareArch model rtl).1

/-- **The comparators are one oracle.** On written traces of any length none of them fails, and each accepts exactly the
traces of one length whose rows agree. -/
theorem comparators_agree (c : Comparator) (w w' : Writer) (model rtl : List RetireEvent) :
    c.accepts (w.file model) (w'.file rtl) = .ok (decide (Correlated model rtl)) := by
  have hlist := Milestone3c.archEqual_file w w' model rtl
  have hloaded := ValidationSuite.compareArch_loaded model rtl
  cases c with
  | compareTraces modelPath rtlPath maxMismatches =>
    obtain ⟨out, hmain⟩ := CompareTraces.main_file ⟨modelPath, rtlPath, maxMismatches, false⟩ rfl w w' model rtl
    rw [Comparator.accepts, hmain]
    by_cases h : Correlated model rtl
    · simp [bind, Except.bind, pure, Except.pure, h]
    · simp [bind, Except.bind, pure, Except.pure, h]
  | milestone3 => exact Milestone3.archEqual_file w w' model rtl
  | milestone3c =>
    obtain ⟨v, hrun, hv⟩ := hlist
    rw [Comparator.accepts, hrun, ← hv]
    rfl
  | milestone3d =>
    obtain ⟨v, hrun, hv⟩ := hlist
    rw [Comparator.accepts, Milestone3d.archEqual]
    rw [hrun, ← hv]
    rfl
  | milestone4 =>
    obtain ⟨v, hrun, hv⟩ := Milestone4.archCompareStream_file w w' model rtl
    rw [Comparator.accepts, hrun, ← hv]
    rfl
  | validationSuite =>
    obtain ⟨v, hrun, hv⟩ := hloaded
    rw [Comparator.accepts, ValidationSuite.loadTrace_file, ValidationSuite.loadTrace_file, ← hv]
    exact congrArg (fun x : Py (Bool × String) => x.map Prod.fst) hrun
  | dividerCharacterization =>
    obtain ⟨v, hrun, hv⟩ := hloaded
    rw [Comparator.accepts, ValidationSuite.loadTrace_file, ValidationSuite.loadTrace_file, ← hv]
    exact congrArg (fun x : Py (Bool × String) => x.map Prod.fst) hrun

end Rv32im
