/-
The printed statistics (`include/rv32im/PerformanceStats.hpp`) and the scripts that parse them back (`scripts/*.py`).

- `PerformanceStats.print`: the text. The three floating-point rates in it are any digits around a point.
- `Script.keys`, `Script.parse`: the label tables of the six scripts and their parsers.
- `layout`: the printed lines, each with the label and the counter that it reports.
- `collect`: what a table keeps of labelled values, with one entry for a label.
- `stats_round_trip`: a script reads exactly the counters of the labels that are printed.
-/
import Rv32im.Core.Text
import Rv32im.Model.Cpu

namespace Rv32im

open Text

/-! ## Printing -/

/-- a rate in fixed notation -/
structure FixedText where
  chars : List Char
  plain : ∀ c ∈ chars, c.isDigit = true ∨ c = '.'

/-- the floating-point values that `print` computes -/
structure Rates where
  cpi : FixedText
  icacheHitRate : FixedText
  dcacheHitRate : FixedText

namespace PerformanceStats

variable (st : PerformanceStats)

/-- the printed difference, in 64 bits -/
def netCacheStalls : ℕ :=
  (BitVec.ofNat 64 st.stallIcache + BitVec.ofNat 64 st.stallDcache - BitVec.ofNat 64 st.stallCacheOverlap).toNat

def print (r : Rates) : String :=
  "\n=== RV32IM model statistics ===\n" ++
  "retired                 : " ++ toString st.retired ++ "\n" ++
  "predicted cycles        : " ++ toString st.cycles ++ "\n" ++
  "predicted CPI           : " ++ String.ofList r.cpi.chars ++ "\n" ++
  "ALU instructions        : " ++ toString st.alu ++ "\n" ++
  "branches                : " ++ toString st.branches ++ "\n" ++
  "branches taken          : " ++ toString st.branchesTaken ++ "\n" ++
  "jumps                   : " ++ toString st.jumps ++ "\n" ++
  "loads                   : " ++ toString st.loads ++ "\n" ++
  "stores                  : " ++ toString st.stores ++ "\n" ++
  "M-extension ops         : " ++ toString st.mulDiv ++ "\n" ++
  "\n=== Pipeline performance ===\n" ++
  "base instruction cycles : " ++ toString st.baseInstructionCycles ++ "\n" ++
  "pipeline fill/drain      : " ++ toString st.pipelineFillDrain ++ "\n" ++
  "load-use stalls          : " ++ toString st.stallLoadUse ++ "\n" ++
  "taken-branch stalls      : " ++ toString st.stallBranchRedirect ++ "\n" ++
  "JAL/JALR redirect stalls : " ++ toString st.stallJumpRedirect ++ "\n" ++
  "divider stalls           : " ++ toString st.stallDivider ++ "  (8-stage, II=1 calibrated)\n" ++
  "I-cache stalls           : " ++ toString st.stallIcache ++ "\n" ++
  "D-cache stalls           : " ++ toString st.stallDcache ++ "\n" ++
  "I$/D$ overlap cycles     : " ++ toString st.stallCacheOverlap ++ "\n" ++
  "net cache stall cycles   : " ++ toString st.netCacheStalls ++ "\n" ++
  "\n=== Cache hierarchy ===\n" ++
  "I-cache accesses         : " ++ toString st.icacheAccesses ++ "\n" ++
  "I-cache hits             : " ++ toString st.icacheHits ++ "\n" ++
  "I-cache misses           : " ++ toString st.icacheMisses ++ "\n" ++
  "I-cache hit rate         : " ++ String.ofList r.icacheHitRate.chars ++ "%\n" ++
  "D-cache accesses         : " ++ toString st.dcacheAccesses ++ "\n" ++
  "D-cache hits             : " ++ toString st.dcacheHits ++ "\n" ++
  "D-cache misses           : " ++ toString st.dcacheMisses ++ "\n" ++
  "D-cache writebacks       : " ++ toString st.dcacheWritebacks ++ "\n" ++
  "D-cache hit rate         : " ++ String.ofList r.dcacheHitRate.chars ++ "%\n" ++
  "AXI read transactions    : " ++ toString st.axiReadTransactions ++ "\n" ++
  "AXI write transactions   : " ++ toString st.axiWriteTransactions ++ "\n"

end PerformanceStats

/-! ## Parsing -/

/-- a Python dictionary -/
abbrev Dict := String → Option ℤ

/-- one turn of the loop over the lines -/
def readLine (keys : List (String × String)) (out : Dict) (line : List Char) : Dict :=
  if ':' ∉ line then out
  else
    match keys.lookup (String.ofList (strip (before ':' line))) with
    | none => out
    | some name =>
      match searchInt (behind ':' line) with
      | none => out
      | some n => Function.update out name (some n)

def readLines (keys : List (String × String)) (text : String) : Dict :=
  (splitLines text.toList).foldl (readLine keys) fun _ => none

/-- the match of `x05\s*=\s*0x([0-9a-fA-F]+)` at the start of a text -/
def matchX05 (text : List Char) : Option ℕ :=
  match text with
  | 'x' :: '0' :: '5' :: s =>
    match s.dropWhile isSpace with
    | '=' :: s =>
      match s.dropWhile isSpace with
      | '0' :: 'x' :: s => readDigits 16 0 true (s.takeWhile Char.isHexDigit)
      | _ => none
    | _ => none
  | _ => none

/-- the first match at the start of a line -/
def searchX05 (lineStart : Bool) : List Char → Option ℕ
  | [] => none
  | c :: s => ((if lineStart then matchX05 (c :: s) else none)).or (searchX05 (c = '\n') s)

inductive Script where
  | milestone3
  | milestone3c
  | milestone3d
  | milestone4
  | sensitivitySweep
  | milestone6a
deriving DecidableEq, Repr

namespace Script

/-- `KEYS` -/
def keys : Script → List (String × String)
  | milestone3 => [
    ("retired", "retired"),
    ("predicted cycles", "cycles"),
    ("I-cache stalls", "icache_stalls"),
    ("D-cache stalls", "dcache_stalls"),
    ("I-cache accesses", "icache_accesses"),
    ("I-cache hits", "icache_hits"),
    ("I-cache misses", "icache_misses"),
    ("D-cache accesses", "dcache_accesses"),
    ("D-cache hits", "dcache_hits"),
    ("D-cache misses", "dcache_misses"),
    ("D-cache writebacks", "dcache_writebacks"),
    ("AXI read transactions", "axi_reads"),
    ("AXI write transactions", "axi_writes")]
  | milestone3c => [
    ("retired", "retired"),
    ("predicted cycles", "cycles"),
    ("branches", "branches"),
    ("branches taken", "branches_taken"),
    ("I-cache stalls", "icache_stalls"),
    ("I-cache accesses", "icache_accesses"),
    ("I-cache hits", "icache_hits"),
    ("I-cache misses", "icache_misses"),
    ("AXI read transactions", "axi_reads")]
  | milestone3d => [
    ("retired", "retired"),
    ("predicted cycles", "cycles"),
    ("branches", "branches"),
    ("branches taken", "branches_taken"),
    ("jumps", "jumps"),
    ("I-cache stalls", "icache_stalls"),
    ("JAL/JALR redirect stalls", "jump_stalls"),
    ("I-cache accesses", "icache_accesses"),
    ("I-cache hits", "icache_hits"),
    ("I-cache misses", "icache_misses"),
    ("AXI read transactions", "axi_reads")]
  | milestone4 => [
    ("retired", "retired"),
    ("predicted cycles", "cycles"),
    ("ALU instructions", "alu"),
    ("branches", "branches"),
    ("branches taken", "branches_taken"),
    ("jumps", "jumps"),
    ("loads", "loads"),
    ("stores", "stores"),
    ("M-extension ops", "mext"),
    ("base instruction cycles", "base_cycles"),
    ("pipeline fill/drain", "fill_drain"),
    ("load-use stalls", "load_use_stalls"),
    ("taken-branch stalls", "branch_stalls"),
    ("JAL/JALR redirect stalls", "jump_stalls"),
    ("divider stalls", "divider_stalls"),
    ("I-cache stalls", "icache_stalls"),
    ("D-cache stalls", "dcache_stalls"),
    ("I$/D$ overlap cycles", "cache_overlap_cycles"),
    ("net cache stall cycles", "net_cache_stalls"),
    ("I-cache accesses", "icache_accesses"),
    ("I-cache hits", "icache_hits"),
    ("I-cache misses", "icache_misses"),
    ("I$ pipeline-hold replays", "icache_pipeline_hold_replays"),
    ("D-cache accesses", "dcache_accesses"),
    ("D-cache hits", "dcache_hits"),
    ("D-cache misses", "dcache_misses"),
    ("D-cache writebacks", "dcache_writebacks"),
    ("D$ IF-stall replays", "dcache_ifstall_replays"),
    ("AXI read transactions", "axi_reads"),
    ("AXI write transactions", "axi_writes")]
  | sensitivitySweep => [
    ("retired", "retired"),
    ("predicted cycles", "cycles"),
    ("I-cache accesses", "icache_accesses"),
    ("I-cache hits", "icache_hits"),
    ("I-cache misses", "icache_misses"),
    ("D-cache accesses", "dcache_accesses"),
    ("D-cache hits", "dcache_hits"),
    ("D-cache misses", "dcache_misses"),
    ("D-cache writebacks", "dcache_writebacks"),
    ("I$/D$ overlap cycles", "cache_overlap_cycles"),
    ("net cache stall cycles", "net_cache_stalls")]
  | milestone6a => [
    ("retired", "retired"),
    ("predicted cycles", "cycles"),
    ("I-cache accesses", "icache_accesses"),
    ("I-cache hits", "icache_hits"),
    ("I-cache misses", "icache_misses"),
    ("D-cache accesses", "dcache_accesses"),
    ("D-cache hits", "dcache_hits"),
    ("D-cache misses", "dcache_misses"),
    ("D-cache writebacks", "dcache_writebacks"),
    ("I$/D$ overlap cycles", "cache_overlap_cycles"),
    ("net cache stall cycles", "net_cache_stalls")]

/-- `parse_stats` or `parse`; only `run_milestone4.py` also looks for the signature register -/
def parse (script : Script) (text : String) : Dict :=
  let out := readLines script.keys text
  match script with
  | milestone4 =>
    match searchX05 true text.toList with
    | some v => Function.update out "x5" (some (v : ℤ))
    | none => out
  | _ => out

end Script

/-- the counter that a field of the parsed statistics stands for -/
def PerformanceStats.named (st : PerformanceStats) : String → ℕ
  | "retired" => st.retired
  | "cycles" => st.cycles
  | "alu" => st.alu
  | "branches" => st.branches
  | "branches_taken" => st.branchesTaken
  | "jumps" => st.jumps
  | "loads" => st.loads
  | "stores" => st.stores
  | "mext" => st.mulDiv
  | "base_cycles" => st.baseInstructionCycles
  | "fill_drain" => st.pipelineFillDrain
  | "load_use_stalls" => st.stallLoadUse
  | "branch_stalls" => st.stallBranchRedirect
  | "jump_stalls" => st.stallJumpRedirect
  | "divider_stalls" => st.stallDivider
  | "icache_stalls" => st.stallIcache
  | "dcache_stalls" => st.stallDcache
  | "cache_overlap_cycles" => st.stallCacheOverlap
  | "net_cache_stalls" => st.netCacheStalls
  | "icache_accesses" => st.icacheAccesses
  | "icache_hits" => st.icacheHits
  | "icache_misses" => st.icacheMisses
  | "icache_pipeline_hold_replays" => st.icachePipelineHoldReplays
  | "dcache_accesses" => st.dcacheAccesses
  | "dcache_hits" => st.dcacheHits
  | "dcache_misses" => st.dcacheMisses
  | "dcache_writebacks" => st.dcacheWritebacks
  | "dcache_ifstall_replays" => st.dcacheIfstallReplays
  | "axi_reads" => st.axiReadTransactions
  | "axi_writes" => st.axiWriteTransactions
  | _ => 0

/-! ## The printed lines -/

/-- a printed line: a title, a labelled counter with the field of its value, or a labelled rate; the head reaches
through the colon and its blank -/
inductive Item where
  | title (text : String)
  | counter (label head name rest : String)
  | rate (label head : String) (value : Rates → FixedText) (rest : String)

namespace Item

def line (st : PerformanceStats) (r : Rates) : Item → List Char
  | title text => text.toList
  | counter _ head name rest => head.toList ++ (decimal (st.named name) ++ rest.toList)
  | rate _ head value rest => head.toList ++ ((value r).chars ++ rest.toList)

/-- a head carries its label and a blank, a title has no colon, and no part of a line ends it -/
def wellFormed : Item → Bool
  | title text => text.toList.all fun c => !isLineEnd c && c ≠ ':'
  | counter label head _ rest =>
    head.toList.all (fun c => !isLineEnd c) && ':' ∈ head.toList && strip (before ':' head.toList) = label.toList &&
      behind ':' head.toList = [' '] && rest.toList.all (fun c => !isLineEnd c) &&
      rest.toList.head?.all fun c => !c.isDigit
  | rate label head _ rest =>
    head.toList.all (fun c => !isLineEnd c) && ':' ∈ head.toList && strip (before ':' head.toList) = label.toList &&
      rest.toList.all fun c => !isLineEnd c

/-- the label of a counter and its field -/
def entry : Item → Option (String × String)
  | counter label _ name _ => some (label, name)
  | _ => none

/-- the label of a rate -/
def rateLabel : Item → Option String
  | rate label _ _ _ => some label
  | _ => none

end Item

/-- the lines of `print` -/
def layout : List Item := [
  .title "",
  .title "=== RV32IM model statistics ===",
  .counter "retired" "retired                 : " "retired" "",
  .counter "predicted cycles" "predicted cycles        : " "cycles" "",
  .rate "predicted CPI" "predicted CPI           : " (·.cpi) "",
  .counter "ALU instructions" "ALU instructions        : " "alu" "",
  .counter "branches" "branches                : " "branches" "",
  .counter "branches taken" "branches taken          : " "branches_taken" "",
  .counter "jumps" "jumps                   : " "jumps" "",
  .counter "loads" "loads                   : " "loads" "",
  .counter "stores" "stores                  : " "stores" "",
  .counter "M-extension ops" "M-extension ops         : " "mext" "",
  .title "",
  .title "=== Pipeline performance ===",
  .counter "base instruction cycles" "base instruction cycles : " "base_cycles" "",
  .counter "pipeline fill/drain" "pipeline fill/drain      : " "fill_drain" "",
  .counter "load-use stalls" "load-use stalls          : " "load_use_stalls" "",
  .counter "taken-branch stalls" "taken-branch stalls      : " "branch_stalls" "",
  .counter "JAL/JALR redirect stalls" "JAL/JALR redirect stalls : " "jump_stalls" "",
  .counter "divider stalls" "divider stalls           : " "divider_stalls" "  (8-stage, II=1 calibrated)",
  .counter "I-cache stalls" "I-cache stalls           : " "icache_stalls" "",
  .counter "D-cache stalls" "D-cache stalls           : " "dcache_stalls" "",
  .counter "I$/D$ overlap cycles" "I$/D$ overlap cycles     : " "cache_overlap_cycles" "",
  .counter "net cache stall cycles" "net cache stall cycles   : " "net_cache_stalls" "",
  .title "",
  .title "=== Cache hierarchy ===",
  .counter "I-cache accesses" "I-cache accesses         : " "icache_accesses" "",
  .counter "I-cache hits" "I-cache hits             : " "icache_hits" "",
  .counter "I-cache misses" "I-cache misses           : " "icache_misses" "",
  .rate "I-cache hit rate" "I-cache hit rate         : " (·.icacheHitRate) "%",
  .counter "D-cache accesses" "D-cache accesses         : " "dcache_accesses" "",
  .counter "D-cache hits" "D-cache hits             : " "dcache_hits" "",
  .counter "D-cache misses" "D-cache misses           : " "dcache_misses" "",
  .counter "D-cache writebacks" "D-cache writebacks       : " "dcache_writebacks" "",
  .rate "D-cache hit rate" "D-cache hit rate         : " (·.dcacheHitRate) "%",
  .counter "AXI read transactions" "AXI read transactions    : " "axi_reads" "",
  .counter "AXI write transactions" "AXI write transactions   : " "axi_writes" ""]

theorem layout_wellFormed : ∀ i ∈ layout, i.wellFormed = true := List.all_eq_true.1 (by decide +kernel)

theorem toList_toString (n : ℕ) : (toString n).toList = decimal n := String.toList_ofList

/-- **The text is its lines**, each ended by a line feed. -/
theorem print_layout (st : PerformanceStats) (r : Rates) :
    (st.print r).toList = unlines (layout.map (Item.line st r)) := by
  have hfeed : "\n".toList = ['\n'] := rfl
  have hpercent : "%\n".toList = "%".toList ++ ['\n'] := rfl
  have hdivider : "  (8-stage, II=1 calibrated)\n".toList = "  (8-stage, II=1 calibrated)".toList ++ ['\n'] := rfl
  have hstatistics : "\n=== RV32IM model statistics ===\n".toList =
      ['\n'] ++ ("=== RV32IM model statistics ===".toList ++ ['\n']) := rfl
  have hpipeline : "\n=== Pipeline performance ===\n".toList =
      ['\n'] ++ ("=== Pipeline performance ===".toList ++ ['\n']) := rfl
  have hcaches : "\n=== Cache hierarchy ===\n".toList =
      ['\n'] ++ ("=== Cache hierarchy ===".toList ++ ['\n']) := rfl
  have hempty : "".toList = [] := rfl
  unfold PerformanceStats.print
  simp only [String.toList_append, toList_toString, String.toList_ofList, hfeed, hpercent, hdivider, hstatistics,
    hpipeline, hcaches, List.append_assoc]
  simp only [layout, unlines, List.map_cons, List.map_nil, List.flatMap_cons, List.flatMap_nil, Item.line, hempty,
    PerformanceStats.named, List.append_assoc, List.append_nil, List.nil_append]

theorem isLineEnd_digit {c : Char} (h : c.isDigit = true) : isLineEnd c = false := by
  have hrange := Char.isDigit_iff_toNat.1 h
  have hzero : '0'.toNat = 48 := rfl
  unfold isLineEnd
  rw [Bool.or_eq_false_iff, Bool.and_eq_false_iff, Bool.and_eq_false_iff]
  simp only [decide_eq_false_iff_not]
  omega

theorem FixedText.isLineEnd (t : FixedText) {c : Char} (h : c ∈ t.chars) : Text.isLineEnd c = false := by
  rcases t.plain c h with hd | rfl
  · exact isLineEnd_digit hd
  · rfl

namespace Item

variable {i : Item} {st : PerformanceStats} {r : Rates}

theorem line_plain (h : i.wellFormed = true) : ∀ c ∈ i.line st r, isLineEnd c = false := by
  intro c hc
  cases i with
  | title text =>
    simp only [wellFormed, List.all_eq_true, Bool.and_eq_true, Bool.not_eq_true'] at h
    exact (h c hc).1
  | counter label head name rest =>
    simp only [wellFormed, Bool.and_eq_true, List.all_eq_true, Bool.not_eq_true'] at h
    obtain ⟨⟨⟨⟨⟨hhead, -⟩, -⟩, -⟩, hrest⟩, -⟩ := h
    rcases List.mem_append.1 hc with hc | hc
    · exact hhead c hc
    rcases List.mem_append.1 hc with hc | hc
    · exact isLineEnd_digit (isDigit_decimal hc)
    · exact hrest c hc
  | rate label head value rest =>
    simp only [wellFormed, Bool.and_eq_true, List.all_eq_true, Bool.not_eq_true'] at h
    obtain ⟨⟨⟨hhead, -⟩, -⟩, hrest⟩ := h
    rcases List.mem_append.1 hc with hc | hc
    · exact hhead c hc
    rcases List.mem_append.1 hc with hc | hc
    · exact (value r).isLineEnd hc
    · exact hrest c hc

end Item

/-! ## What a table keeps -/

/-- a table keeps the value of a labelled field, when it names the label -/
def keep (keys : List (String × String)) (value : String → ℕ) (out : Dict) (p : String × String) : Dict :=
  match keys.lookup p.1 with
  | none => out
  | some name => Function.update out name (some (value p.2 : ℤ))

def collect (keys : List (String × String)) (value : String → ℕ) (ps : List (String × String)) (out : Dict) : Dict :=
  ps.foldl (keep keys value) out

section Reading

variable {keys : List (String × String)} {i : Item} {st : PerformanceStats} {r : Rates}

/-- the label of a line that starts with a well-formed head -/
theorem label_of_head {label head : String} (hcolon : ':' ∈ head.toList)
    (hlabel : strip (before ':' head.toList) = label.toList) (s : List Char) :
    String.ofList (strip (before ':' (head.toList ++ s))) = label := by
  rw [before_append hcolon, hlabel, String.ofList_toList]

/-- **One line**: a counter that the table names is kept, every other line is skipped. -/
theorem readLine_item (h : i.wellFormed = true) (hrate : ∀ l, i.rateLabel = some l → keys.lookup l = none) (out : Dict) :
    readLine keys out (i.line st r) = collect keys st.named i.entry.toList out := by
  cases i with
  | title text =>
    simp only [Item.wellFormed, List.all_eq_true, Bool.and_eq_true, decide_eq_true_eq] at h
    have hno : ':' ∉ (Item.title text).line st r := fun hc => (h ':' hc).2 rfl
    exact if_pos hno
  | counter label head name rest =>
    simp only [Item.wellFormed, Bool.and_eq_true, decide_eq_true_eq] at h
    obtain ⟨⟨⟨⟨⟨-, hcolon⟩, hlabel⟩, hblank⟩, -⟩, hrest⟩ := h
    have hin : ¬ ':' ∉ head.toList ++ (decimal (st.named name) ++ rest.toList) :=
      not_not.2 (List.mem_append_left _ hcolon)
    have hvalue : searchInt (behind ':' (head.toList ++ (decimal (st.named name) ++ rest.toList))) =
        some ((st.named name : ℕ) : ℤ) := by
      rw [behind_append hcolon, hblank]
      have hnone : ∀ c ∈ [' '], c.isDigit = false ∧ c ≠ '-' := by
        intro c hc
        rw [List.mem_singleton.1 hc]
        decide
      apply searchInt_decimal hnone
      intro c hc
      have hnot := (Option.all_eq_true _ _).1 hrest c hc
      simpa using hnot
    show readLine keys out (head.toList ++ (decimal (st.named name) ++ rest.toList)) =
      keep keys st.named out (label, name)
    unfold readLine keep
    rw [if_neg hin, label_of_head hcolon hlabel, hvalue]
  | rate label head value rest =>
    simp only [Item.wellFormed, Bool.and_eq_true, decide_eq_true_eq] at h
    obtain ⟨⟨⟨-, hcolon⟩, hlabel⟩, -⟩ := h
    have hin : ¬ ':' ∉ head.toList ++ ((value r).chars ++ rest.toList) := not_not.2 (List.mem_append_left _ hcolon)
    show readLine keys out (head.toList ++ ((value r).chars ++ rest.toList)) = out
    unfold readLine
    rw [if_neg hin, label_of_head hcolon hlabel, hrate label rfl]

theorem collect_append (value : String → ℕ) (ps qs : List (String × String)) (out : Dict) :
    collect keys value (ps ++ qs) out = collect keys value qs (collect keys value ps out) := List.foldl_append

/-- the lines of a text, one by one -/
theorem readLines_items {l : List Item} (h : ∀ i ∈ l, i.wellFormed = true)
    (hrate : ∀ i ∈ l, ∀ label, i.rateLabel = some label → keys.lookup label = none) (out : Dict) :
    (l.map (Item.line st r)).foldl (readLine keys) out = collect keys st.named (l.filterMap Item.entry) out := by
  induction l generalizing out with
  | nil => rfl
  | cons i l ih =>
    have hentries : (i :: l).filterMap Item.entry = i.entry.toList ++ l.filterMap Item.entry := by
      cases hi : i.entry with
      | none => simp [hi]
      | some p => simp [hi]
    rw [List.map_cons, List.foldl_cons, readLine_item (h i List.mem_cons_self) (hrate i List.mem_cons_self), hentries,
      collect_append]
    apply ih
    · intro j hj
      exact h j (List.mem_cons_of_mem i hj)
    · intro j hj
      exact hrate j (List.mem_cons_of_mem i hj)

end Reading

section Collecting

variable {keys ps : List (String × String)} {value : String → ℕ} {label name field : String}

/-- labels of other fields leave a field alone -/
theorem collect_other (h : ∀ p ∈ ps, keys.lookup p.1 ≠ some name) (out : Dict) :
    collect keys value ps out name = out name := by
  induction ps generalizing out with
  | nil => rfl
  | cons p ps ih =>
    have hkeep : keep keys value out p name = out name := by
      unfold keep
      cases hl : keys.lookup p.1 with
      | none => rfl
      | some other =>
        refine Function.update_of_ne ?_ _ _
        rintro rfl
        exact h p List.mem_cons_self hl
    have hcons : collect keys value (p :: ps) out = collect keys value ps (keep keys value out p) := rfl
    rw [hcons, ih fun q hq => h q (List.mem_cons_of_mem p hq), hkeep]

/-- **A labelled value is kept** under the name of its label, when no other label has that name. -/
theorem collect_mem (hp : (label, field) ∈ ps) (hnodup : (ps.map Prod.fst).Nodup) (hl : keys.lookup label = some name)
    (hinj : ∀ other, keys.lookup other = some name → other = label) (out : Dict) :
    collect keys value ps out name = some (value field : ℤ) := by
  obtain ⟨qs, rs, rfl⟩ := List.append_of_mem hp
  have hkeep : keep keys value (collect keys value qs out) (label, field) name = some (value field : ℤ) := by
    unfold keep
    rw [hl]
    exact Function.update_self _ _ _
  have hcons : collect keys value (qs ++ (label, field) :: rs) out =
      collect keys value rs (keep keys value (collect keys value qs out) (label, field)) :=
    collect_append value qs ((label, field) :: rs) out
  rw [hcons, collect_other, hkeep]
  intro p hp hname
  rw [List.map_append, List.map_cons, List.nodup_append] at hnodup
  have hfresh := (List.nodup_cons.1 hnodup.2.1).1
  have hsame : p.1 = label := hinj p.1 hname
  have hlater : p.1 ∈ rs.map Prod.fst := List.mem_map_of_mem hp
  exact hfresh (hsame ▸ hlater)

/-- every kept value was labelled -/
theorem collect_some {v : ℤ} (h : collect keys value ps (fun _ => none) name = some v) :
    ∃ p ∈ ps, keys.lookup p.1 = some name ∧ v = value p.2 := by
  induction ps using List.reverseRecOn with
  | nil => cases h
  | append_singleton ps p ih =>
    rw [collect_append] at h
    have hlast : keep keys value (collect keys value ps fun _ => none) p name = some v := h
    unfold keep at hlast
    have hearlier : (collect keys value ps fun _ => none) name = some v →
        ∃ q ∈ ps ++ [p], keys.lookup q.1 = some name ∧ v = value q.2 := by
      intro hv
      obtain ⟨q, hq, hqn⟩ := ih hv
      exact ⟨q, List.mem_append_left _ hq, hqn⟩
    cases hl : keys.lookup p.1 with
    | none =>
      rw [hl] at hlast
      exact hearlier hlast
    | some other =>
      rw [hl] at hlast
      by_cases hname : name = other
      · subst hname
        simp only [Function.update_self, Option.some.injEq] at hlast
        exact ⟨p, by simp, hl, hlast.symm⟩
      · simp only [Function.update_of_ne hname] at hlast
        exact hearlier hlast

theorem mem_of_lookup (h : keys.lookup label = some name) : (label, name) ∈ keys := by
  obtain ⟨l, l', rfl, -⟩ := List.lookup_eq_some_iff.1 h
  simp

theorem lookup_of_mem (hnodup : (keys.map Prod.fst).Nodup) (h : (label, name) ∈ keys) :
    keys.lookup label = some name := by
  obtain ⟨l, l', rfl⟩ := List.append_of_mem h
  refine List.lookup_eq_some_iff.2 ⟨l, l', rfl, ?_⟩
  intro p hp
  rw [List.map_append, List.map_cons, List.nodup_append] at hnodup
  rw [bne_iff_ne]
  intro heq
  exact hnodup.2.2 p.1 (List.mem_map_of_mem hp) label List.mem_cons_self heq.symm

end Collecting

/-! ## The signature register -/

theorem matchX05_none {c : Char} (h : c ≠ 'x') (s : List Char) : matchX05 (c :: s) = none := by
  unfold matchX05
  split
  · rename_i heq
    exact absurd (List.cons.inj heq).1 h
  · rfl

/-- a line that does not start with `x` is passed -/
theorem searchX05_line {line : List Char} (hline : '\n' ∉ line) {start : Bool}
    (hstart : start = true → line.head? ≠ some 'x') (s : List Char) :
    searchX05 start (line ++ '\n' :: s) = searchX05 true s := by
  induction line generalizing start with
  | nil =>
    rw [List.nil_append, searchX05, matchX05_none (by decide), ite_self]
    rfl
  | cons c line ih =>
    have hfeed : c ≠ '\n' := by
      rintro rfl
      exact hline List.mem_cons_self
    have hnone : (if start then matchX05 (c :: (line ++ '\n' :: s)) else none) = none := by
      cases start with
      | false => rfl
      | true => exact matchX05_none (by simpa using hstart rfl) _
    rw [List.cons_append, searchX05, hnone, decide_eq_false hfeed]
    apply ih fun hc => hline (List.mem_cons_of_mem c hc)
    intro h
    cases h

theorem searchX05_unlines {l : List (List Char)} (h : ∀ line ∈ l, '\n' ∉ line ∧ line.head? ≠ some 'x') :
    searchX05 true (unlines l) = none := by
  induction l with
  | nil => rfl
  | cons line l ih =>
    obtain ⟨hline, hstart⟩ := h line List.mem_cons_self
    have hcons : unlines (line :: l) = line ++ '\n' :: unlines l := by simp [unlines]
    rw [hcons, searchX05_line hline fun _ => hstart]
    exact ih fun m hm => h m (List.mem_cons_of_mem line hm)

namespace Item

/-- how a line starts -/
def opening : Item → List Char
  | title text => text.toList
  | counter _ head _ _ => head.toList
  | rate _ head _ _ => head.toList

theorem head_line {i : Item} (h : i.wellFormed = true) (st : PerformanceStats) (r : Rates) :
    (i.line st r).head? = i.opening.head? := by
  have hhead : ∀ {l : List Char} (s : List Char), ':' ∈ l → (l ++ s).head? = l.head? := by
    intro l s hl
    cases l with
    | nil => cases hl
    | cons c l => rfl
  cases i with
  | title text => rfl
  | counter label head name rest =>
    simp only [wellFormed, Bool.and_eq_true, decide_eq_true_eq] at h
    exact hhead _ h.1.1.1.1.2
  | rate label head value rest =>
    simp only [wellFormed, Bool.and_eq_true, decide_eq_true_eq] at h
    exact hhead _ h.1.1.2

end Item

/-! ## The round trip -/

/-- the labels of the printed counters, each with its field -/
def entries : List (String × String) := layout.filterMap Item.entry

theorem searchX05_print (st : PerformanceStats) (r : Rates) : searchX05 true (st.print r).toList = none := by
  have hopening : ∀ i ∈ layout, i.opening.head? ≠ some 'x' := by
    have hall : (layout.all fun i => i.opening.head? ≠ some 'x') = true := by decide +kernel
    intro i hi
    exact of_decide_eq_true (List.all_eq_true.1 hall i hi)
  rw [print_layout]
  apply searchX05_unlines
  intro line hline
  obtain ⟨i, hi, rfl⟩ := List.mem_map.1 hline
  have hform := layout_wellFormed i hi
  refine ⟨?_, ?_⟩
  · intro hfeed
    cases Item.line_plain hform '\n' hfeed
  · rw [Item.head_line hform]
    exact hopening i hi

/-- **What a script keeps of the text**: the labelled counters that its table names. -/
theorem parse_print (script : Script) (st : PerformanceStats) (r : Rates) :
    script.parse (st.print r) = collect script.keys st.named entries fun _ => none := by
  have hrate : ∀ i ∈ layout, ∀ label, i.rateLabel = some label → script.keys.lookup label = none := by
    have hall : (layout.all fun i => i.rateLabel.all fun label => script.keys.lookup label = none) = true := by
      cases script <;> decide +kernel
    intro i hi label hlabel
    have hi' := List.all_eq_true.1 hall i hi
    rw [hlabel] at hi'
    exact of_decide_eq_true hi'
  have hlines : readLines script.keys (st.print r) = collect script.keys st.named entries fun _ => none := by
    have hsplit : splitLines (st.print r).toList = layout.map (Item.line st r) := by
      rw [print_layout]
      apply splitLines_unlines
      intro line hline
      obtain ⟨i, hi, rfl⟩ := List.mem_map.1 hline
      exact Item.line_plain (layout_wellFormed i hi)
    unfold readLines
    rw [hsplit]
    exact readLines_items layout_wellFormed hrate _
  unfold Script.parse
  rw [hlines, searchX05_print]
  cases script <;> rfl

/-- a label names one field, and a field has one label -/
theorem keys_nodup (script : Script) :
    (script.keys.map Prod.fst).Nodup ∧ (script.keys.map Prod.snd).Nodup := by
  cases script <;> decide +kernel

/-- `run_milestone4.py` has the longest table -/
theorem keys_subset (script : Script) : ∀ p ∈ script.keys, p ∈ Script.milestone4.keys := by
  cases script <;> decide +kernel

theorem entries_nodup : (entries.map Prod.fst).Nodup := by decide +kernel

/-- **The printed labels** are those of the longest table but for two. -/
theorem entries_complete : ∀ p ∈ Script.milestone4.keys,
    p.1 ≠ "I$ pipeline-hold replays" → p.1 ≠ "D$ IF-stall replays" → p ∈ entries := by decide +kernel

theorem entries_missing : ∀ p ∈ entries, p.1 ≠ "I$ pipeline-hold replays" ∧ p.1 ≠ "D$ IF-stall replays" := by
  decide +kernel

/-- **The statistics round trip.** A script reads the counter of a label exactly when `print` writes that label, and no
field gets the value of another label. -/
theorem stats_round_trip (script : Script) (st : PerformanceStats) (r : Rates) :
    (∀ label name, (label, name) ∈ script.keys →
      (script.parse (st.print r) name = some (st.named name : ℤ) ↔
        label ≠ "I$ pipeline-hold replays" ∧ label ≠ "D$ IF-stall replays")) ∧
    ∀ name v, script.parse (st.print r) name = some v →
      ∃ label, (label, name) ∈ script.keys ∧ v = (st.named name : ℤ) := by
  obtain ⟨hlabels, hnames⟩ := keys_nodup script
  have hinj : ∀ {label other name}, (label, name) ∈ script.keys → script.keys.lookup other = some name →
      other = label := by
    intro label other name hp hl
    exact congrArg Prod.fst (List.inj_on_of_nodup_map hnames (mem_of_lookup hl) hp rfl)
  rw [parse_print]
  refine ⟨?_, ?_⟩
  · intro label name hp
    refine ⟨?_, ?_⟩
    · intro hread
      obtain ⟨p, hmem, hl, -⟩ := collect_some hread
      rw [← hinj hp hl]
      exact entries_missing p hmem
    · intro ⟨hhold, hifstall⟩
      have hentry := entries_complete (label, name) (keys_subset script _ hp) hhold hifstall
      exact collect_mem hentry entries_nodup (lookup_of_mem hlabels hp) (fun other => hinj hp) _
  · intro name v hread
    obtain ⟨p, hmem, hl, rfl⟩ := collect_some hread
    have hp := mem_of_lookup hl
    obtain ⟨hhold, hifstall⟩ := entries_missing p hmem
    have hentry := entries_complete (p.1, name) (keys_subset script _ hp) hhold hifstall
    have hsame := List.inj_on_of_nodup_map entries_nodup hmem hentry rfl
    exact ⟨p.1, hp, congrArg (fun q => ((st.named q.2 : ℕ) : ℤ)) hsame⟩

def zeroText : FixedText := ⟨"0.0000".toList, by simp⟩

/-- a granted overlap credit is counted and not read back -/
theorem replays_not_read : ¬ ∀ (script : Script) (st : PerformanceStats) (r : Rates) (label name : String),
    (label, name) ∈ script.keys → script.parse (st.print r) name = some (st.named name : ℤ) := by
  intro h
  have hread := h .milestone4 { dcacheIfstallReplays := 1 } ⟨zeroText, zeroText, zeroText⟩ "D$ IF-stall replays"
    "dcache_ifstall_replays" (by decide +kernel)
  have hnone : Script.milestone4.parse (PerformanceStats.print { dcacheIfstallReplays := 1 }
      ⟨zeroText, zeroText, zeroText⟩) "dcache_ifstall_replays" = none := by
    rw [parse_print]
    decide +kernel
  rw [hnone] at hread
  cases hread

end Rv32im
