/-
The trace writer of the model on its output stream (`TraceWriter` of `include/rv32im/Trace.hpp`).

The writer changes the base, the width and the fill character of the stream for each field, and puts the base and the
fill character back behind each row.

- `writeTo`: the insertions of one row. `openFile`: that of the header. `traceFile`: a file behind the rows of a run.
- `writeTo_eq`: in a stream without a width, a row appends `TraceWriter.write` and leaves the formatting as it was.
- `traceFile_eq`: so the rows of a file do not depend on each other.
-/
import Rv32im.Core.Ostream
import Rv32im.Tools.TraceFile

namespace Rv32im

open Text

inductive TraceExn where
  | notOpened (path : String)
deriving DecidableEq, Repr

def TraceExn.what : TraceExn → String
  | .notOpened path => "Could not open trace file: " ++ path

namespace TraceWriter

/-- `"0x" << std::hex << std::setw(8) << std::setfill('0') << x` -/
def insertWord (x : BitVec 32) (out : Ostream) : Ostream :=
  (out.insert ['0', 'x']).hex |>.setw 8 |>.setfill '0' |>.insertNat x.toNat

def comma (out : Ostream) : Ostream := out.insert [',']

/-- `std::dec << (b ? 1 : 0)` -/
def insertFlag (b : Bool) (out : Ostream) : Ostream := out.dec.insertNat (if b then 1 else 0)

def writeTo (e : RetireEvent) (out : Ostream) : Ostream :=
  let flags := out.flags
  let fill := out.fill
  let out := comma (out.dec.insertNat e.cycle)
  let out := comma (out.insertNat e.retired)
  let out := comma (insertWord e.pc out)
  let out := comma (insertWord e.insn out)
  let out := comma (out.dec.insertNat e.rd)
  let out := comma (insertWord e.wdata out)
  let out := comma (insertFlag e.regWrite out)
  let out := comma (insertWord e.memAddr out)
  let out := comma (insertFlag e.memRead out)
  let out := out.insertNat (if e.memWrite then 1 else 0)
  let out := out.insert ['\n']
  { out with flags := flags, fill := fill }

/-- the header goes into a file that could be opened -/
def openFile (path : String) (opened : Bool) : Except TraceExn Ostream :=
  if opened then .ok (({} : Ostream).insert (header.toList ++ ['\n'])) else .error (.notOpened path)

/-- the text of a file behind the rows of a run -/
def traceFile (path : String) (opened : Bool) (events : List RetireEvent) : Except TraceExn (List Char) := do
  let out ← openFile path opened
  return (events.foldl (fun out e => writeTo e out) out).text

section

variable (flags : BaseField) (fill : Char) (text : List Char)

@[simp] theorem insertWord_mk (x : BitVec 32) :
    insertWord x ⟨flags, fill, 0, text⟩ = ⟨.hex, '0', 0, text ++ word x⟩ := by
  have hlt : x.toNat < 16 ^ 8 := x.isLt
  simp [insertWord, Ostream.insertNat_hex (by decide) hlt, word]

@[simp] theorem comma_mk : comma ⟨flags, fill, 0, text⟩ = ⟨flags, fill, 0, text ++ [',']⟩ :=
  Ostream.insert_unpadded _ _ _ _

theorem decimal_flag (b : Bool) : decimal (if b then 1 else 0) = bit b := by
  cases b <;> rfl

@[simp] theorem insertFlag_mk (b : Bool) :
    insertFlag b ⟨flags, fill, 0, text⟩ = ⟨.dec, fill, 0, text ++ bit b⟩ := by
  rw [insertFlag, Ostream.dec_mk, Ostream.insertNat_dec, decimal_flag]

/-- **A row** is appended as `write` has it, whatever the base and the fill character, and both are put back. -/
theorem writeTo_eq (e : RetireEvent) :
    writeTo e ⟨flags, fill, 0, text⟩ = ⟨flags, fill, 0, text ++ write e⟩ := by
  simp [writeTo, write, decimal_flag]

end

/-- **The rows of a file** are those of its events, in their order. -/
theorem traceFile_eq (path : String) (events : List RetireEvent) :
    traceFile path true events = .ok (Writer.traceWriter.file events) := by
  have hrun : ∀ text, events.foldl (fun out e => writeTo e out) ⟨.dec, ' ', 0, text⟩ =
      ⟨.dec, ' ', 0, text ++ events.flatMap write⟩ := by
    induction events with
    | nil =>
      intro text
      rw [List.flatMap_nil, List.append_nil]
      rfl
    | cons e events ih =>
      intro text
      rw [List.foldl_cons, writeTo_eq, ih, List.flatMap_cons, List.append_assoc]
  have hopen : openFile path true = .ok ⟨.dec, ' ', 0, header.toList ++ ['\n']⟩ :=
    congrArg Except.ok (Ostream.insert_unpadded _ _ _ _)
  unfold traceFile
  rw [hopen]
  refine congrArg Except.ok ?_
  calc (events.foldl (fun out e => writeTo e out) ⟨.dec, ' ', 0, header.toList ++ ['\n']⟩).text
      = header.toList ++ ['\n'] ++ events.flatMap write := congrArg Ostream.text (hrun _)
    _ = Writer.traceWriter.file events := List.append_assoc _ _ _

end TraceWriter

end Rv32im
