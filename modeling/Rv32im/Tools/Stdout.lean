/-
What the scripts read of the whole output of the program (`main.cpp`, `scripts/*.py`).

Behind the statistics the program prints the correlation with an RTL trace, the registers and the paths. None of these
lines has a label of a table, and of the registers only `x05` is looked for.

- `Silent`: a line that no table has a label for. `printed`: the lines behind the statistics.
- `report_lines`: the output is lines. `parse_report`: what a script reads of them.
-/
import Rv32im.Tools.Main

namespace Rv32im

open Text

/-- for the characters of a text, not for all characters -/
instance (priority := high) decidableChars {P : Char → Prop} [DecidablePred P] (l : List Char) :
    Decidable (∀ c ∈ l, P c) := List.decidableBAll P l

/-! ## Silent lines -/

/-- the labels behind the statistics, each up to its colon and a blank -/
def silentHeads : List String := [
  "model retired           : ", "RTL retired             : ", "first RTL retire cycle  : ", "model cycles            : ",
  "RTL cycles              : ", "model CPI               : ", "RTL CPI                 : ", "cycle error             : ",
  "result                  : ", "Model trace: ", "RTL trace  : "]

/-- a line that no table has a label for -/
structure Silent (line : List Char) : Prop where
  plain : ∀ c ∈ line, isLineEnd c = false
  label : ':' ∉ line ∨ ∃ head ∈ silentHeads, ∃ s, line = head.toList ++ s

theorem silentHeads_wellFormed : ∀ head ∈ silentHeads, ':' ∈ head.toList ∧ head.toList.head? ≠ some 'x' ∧
    ∀ c ∈ head.toList, isLineEnd c = false := by decide +kernel

theorem silentHeads_lookup (script : Script) : ∀ head ∈ silentHeads,
    script.keys.lookup (String.ofList (strip (before ':' head.toList))) = none := by
  cases script <;> decide +kernel

theorem Silent.readLine {line : List Char} (h : Silent line) (script : Script) (out : Dict) :
    readLine script.keys out line = out := by
  unfold Rv32im.readLine
  rcases h.label with hno | ⟨head, hhead, s, rfl⟩
  · exact if_pos hno
  · have hcolon := (silentHeads_wellFormed head hhead).1
    rw [if_neg (not_not.2 (List.mem_append_left s hcolon)), before_append hcolon, silentHeads_lookup script head hhead]

theorem Silent.readLines {l : List (List Char)} (h : ∀ line ∈ l, Silent line) (script : Script) (out : Dict) :
    l.foldl (Rv32im.readLine script.keys) out = out := by
  induction l with
  | nil => rfl
  | cons line l ih =>
    rw [List.foldl_cons, (h line List.mem_cons_self).readLine]
    exact ih fun m hm => h m (List.mem_cons_of_mem line hm)

theorem silent_head {head : String} (h : head ∈ silentHeads) {s : List Char} (hs : ∀ c ∈ s, isLineEnd c = false) :
    Silent (head.toList ++ s) := by
  refine ⟨?_, Or.inr ⟨head, h, s, rfl⟩⟩
  intro c hc
  rcases List.mem_append.1 hc with hc | hc
  · exact (silentHeads_wellFormed head h).2.2 c hc
  · exact hs c hc

theorem silent_text {head text : String} (h : head ∈ silentHeads) (htext : ∀ c ∈ text.toList, isLineEnd c = false) :
    Silent (head ++ text).toList := by
  rw [String.toList_append]
  exact silent_head h htext

theorem isLineEnd_decimal (n : ℕ) : ∀ c ∈ decimal n, isLineEnd c = false := fun _ hc =>
  isLineEnd_digit (isDigit_decimal hc)

/-- what a script reads under a label of its table, unless the label is not printed -/
theorem print_read (script : Script) (st : PerformanceStats) (r : Rates) {label name : String}
    (hp : (label, name) ∈ script.keys) (hhold : label ≠ "I$ pipeline-hold replays")
    (hifstall : label ≠ "D$ IF-stall replays") : script.parse (st.print r) name = some (st.named name : ℤ) := by
  obtain ⟨hlabels, hnames⟩ := keys_nodup script
  have hentry := entries_complete (label, name) (keys_subset script _ hp) hhold hifstall
  rw [parse_print]
  refine collect_mem hentry entries_nodup (lookup_of_mem hlabels hp) (fun other hother => ?_) _
  exact congrArg Prod.fst (List.inj_on_of_nodup_map hnames (mem_of_lookup hother) hp rfl)

namespace Main

/-! ## The correlation -/

theorem silent_correlation (fl : Floats) (model : PerformanceStats) (rtl : RtlTraceSummary) :
    ∀ line ∈ (rtlCorrelation fl model rtl).map String.toList, Silent line := by
  have htitle : ∀ {text : String}, (text.toList.all fun c => !isLineEnd c && c ≠ ':') = true → Silent text.toList := by
    intro text h
    simp only [List.all_eq_true, Bool.and_eq_true, Bool.not_eq_true', decide_eq_true_eq] at h
    exact ⟨fun c hc => (h c hc).1, Or.inl fun hc => (h ':' hc).2 rfl⟩
  have hcounter : ∀ {head : String} (n : ℕ), head ∈ silentHeads → Silent (head ++ toString n).toList := by
    intro head n h
    apply silent_text h
    rw [toList_toString]
    exact isLineEnd_decimal n
  have hrate : ∀ {head : String} (t : FixedText), head ∈ silentHeads → Silent (head ++ String.ofList t.chars).toList := by
    intro head t h
    apply silent_text h
    rw [String.toList_ofList]
    exact fun c hc => t.isLineEnd hc
  have hpercent : Silent ("cycle error             : " ++ String.ofList (fl.cycleError model rtl).chars ++ "%").toList := by
    rw [String.append_assoc]
    apply silent_text (by decide)
    intro c hc
    rw [String.toList_append, String.toList_ofList] at hc
    rcases List.mem_append.1 hc with hc | hc
    · exact (fl.cycleError model rtl).isLineEnd hc
    · exact (by decide : ∀ c ∈ "%".toList, isLineEnd c = false) c hc
  have hverdict : Silent (verdict model rtl).toList := by
    have hresult : "result                  : " ∈ silentHeads := by decide
    unfold verdict
    split_ifs
    · exact @silent_text _ "PASS (exact aggregate timing correlation)" hresult (by decide +kernel)
    · exact @silent_text _ "CHECK detailed retirement-cycle comparison" hresult (by decide +kernel)
  intro line hline
  unfold rtlCorrelation at hline
  simp only [List.map_cons, List.map_nil, List.mem_cons, List.not_mem_nil, or_false] at hline
  rcases hline with rfl | rfl | rfl | rfl | rfl | rfl | rfl | rfl | rfl | rfl | rfl
  · exact htitle (by decide)
  · exact htitle (by decide +kernel)
  · exact hcounter _ (by decide)
  · exact hcounter _ (by decide)
  · exact hcounter _ (by decide)
  · exact hcounter _ (by decide)
  · exact hcounter _ (by decide)
  · exact hrate _ (by decide)
  · exact hrate _ (by decide)
  · exact hpercent
  · exact hverdict

/-! ## The registers -/

/-- the line of a register, up to its value -/
def regHead (i : Fin 32) : List Char :=
  'x' :: (List.replicate (2 - (decimal i).length) '0' ++ decimal i ++ " = 0x".toList)

def regLine (regs : Regs) (i : Fin 32) : List Char := regHead i ++ Text.hex 8 (regs i).toNat

theorem dumpReg_line (regs : Regs) (i : Fin 32) (text : List Char) :
    dumpReg regs { text := text } i = { text := text ++ (regLine regs i ++ ['\n']) } := by
  have hvalue : (regs i).toNat < 16 ^ 8 := (regs i).isLt
  unfold dumpReg regLine regHead
  rw [← Ostream.pad_toDigits (by decide) hvalue]
  simp only [Ostream.setw_mk, Ostream.setfill_mk, Ostream.hex_mk, Ostream.dec_mk, Ostream.insertNat, Ostream.insert,
    Nat.zero_sub, List.replicate_zero, List.nil_append, List.append_assoc, List.cons_append]
  rfl

theorem dumpRegs_lines (regs : Regs) : dumpRegs regs =
    unlines ([[], "=== Registers ===".toList] ++ (List.finRange 32).map (regLine regs)) := by
  have hfold : ∀ (l : List (Fin 32)) (text : List Char),
      (l.foldl (dumpReg regs) { text := text }).text = text ++ unlines (l.map (regLine regs)) := by
    intro l
    induction l with
    | nil => exact fun text => (List.append_nil text).symm
    | cons i l ih =>
      intro text
      rw [List.foldl_cons, dumpReg_line, ih, List.append_assoc]
      rfl
  unfold dumpRegs
  rw [hfold]
  rfl

theorem regHead_wellFormed : ∀ i : Fin 32, ∀ c ∈ regHead i, isLineEnd c = false ∧ c ≠ ':' := by decide +kernel

theorem silent_regLine (regs : Regs) (i : Fin 32) : Silent (regLine regs i) := by
  have hdigit : ∀ d < 16, isLineEnd (Nat.digitChar d) = false ∧ Nat.digitChar d ≠ ':' := by decide
  have hplain : ∀ c ∈ regLine regs i, isLineEnd c = false ∧ c ≠ ':' := by
    intro c hc
    rcases List.mem_append.1 hc with hc | hc
    · exact regHead_wellFormed i c hc
    · obtain ⟨d, hlt, rfl⟩ := mem_hex hc
      exact hdigit d hlt
  exact ⟨fun c hc => (hplain c hc).1, Or.inl fun hc => (hplain ':' hc).2 rfl⟩

/-! ## The signature register -/

/-- a line that the search passes, whatever follows it -/
def Passed (line : List Char) : Prop := '\n' ∉ line ∧ ∀ s, matchX05 (line ++ '\n' :: s) = none

theorem Passed.search {l : List (List Char)} (h : ∀ line ∈ l, Passed line) (s : List Char) :
    searchX05 true (unlines l ++ s) = searchX05 true s := by
  induction l with
  | nil => rfl
  | cons line l ih =>
    obtain ⟨hfeed, hnone⟩ := h line List.mem_cons_self
    have hcons : unlines (line :: l) ++ s = line ++ '\n' :: (unlines l ++ s) := by simp [unlines]
    rw [hcons, ← ih fun m hm => h m (List.mem_cons_of_mem line hm)]
    cases line with
    | nil => exact searchX05_line hfeed (fun _ => by simp) _
    | cons c line =>
      have hrest := @searchX05_line line (fun hc => hfeed (List.mem_cons_of_mem c hc)) false (by simp)
        (unlines l ++ s)
      have hc : c ≠ '\n' := by
        rintro rfl
        exact hfeed List.mem_cons_self
      rw [List.cons_append, searchX05, if_pos rfl, ← List.cons_append, hnone, decide_eq_false hc, hrest]
      rfl

theorem passed_of_head {line : List Char} (h : ∀ c ∈ line, isLineEnd c = false) (hx : line.head? ≠ some 'x') :
    Passed line := by
  refine ⟨fun hc => ?_, fun s => ?_⟩
  · cases h '\n' hc
  · cases line with
    | nil => exact matchX05_none (by decide) s
    | cons c line =>
      refine matchX05_none ?_ _
      rintro rfl
      exact hx rfl

/-- the other registers are passed -/
theorem passed_regLine (regs : Regs) {i : Fin 32} (hi : i ≠ 5) : Passed (regLine regs i) := by
  have hheads : ∀ j : Fin 32, j ≠ 5 → ∃ a b t, regHead j = 'x' :: a :: b :: t ∧ (a, b) ≠ ('0', '5') := by
    intro j hj
    refine ⟨(regHead j)[1]!, (regHead j)[2]!, (regHead j).drop 3, ?_⟩
    revert j
    decide +kernel
  obtain ⟨a, b, t, hhead, hne⟩ := hheads i hi
  refine ⟨fun hc => ?_, fun s => ?_⟩
  · cases (silent_regLine regs i).plain '\n' hc
  · unfold regLine
    rw [hhead]
    show matchX05 ('x' :: a :: b :: ((t ++ Text.hex 8 (regs i).toNat) ++ '\n' :: s)) = none
    unfold matchX05
    split
    · rename_i heq
      simp only [List.cons.injEq] at heq
      exact absurd (Prod.ext heq.2.1 heq.2.2.1) hne
    · rfl

theorem matchX05_regLine (regs : Regs) (s : List Char) :
    matchX05 (regLine regs 5 ++ '\n' :: s) = some (regs 5).toNat := by
  have hdigit : ∀ d < 16, (Nat.digitChar d).isHexDigit = true := by decide
  have hread : readDigits 16 0 true (Text.hex 8 (regs 5).toNat) = some (regs 5).toNat := by
    have hlt : (regs 5).toNat < 16 ^ 8 := (regs 5).isLt
    have hvalue := readDigits_hex 8 (regs 5).toNat 0 true []
    rw [List.append_nil, Nat.mul_zero, Nat.zero_add, Nat.mod_eq_of_lt hlt] at hvalue
    exact hvalue
  have htake : (Text.hex 8 (regs 5).toNat ++ '\n' :: s).takeWhile Char.isHexDigit = Text.hex 8 (regs 5).toNat := by
    rw [List.takeWhile_append_of_pos]
    · exact List.append_nil _
    · intro c hc
      obtain ⟨d, hlt, rfl⟩ := mem_hex hc
      exact hdigit d hlt
  show readDigits 16 0 true ((Text.hex 8 (regs 5).toNat ++ '\n' :: s).takeWhile Char.isHexDigit) = _
  rw [htake, hread]

theorem unlines_append (l l' : List (List Char)) : unlines (l ++ l') = unlines l ++ unlines l' := List.flatMap_append

theorem unlines_cons (line : List Char) (l : List (List Char)) : unlines (line :: l) = line ++ '\n' :: unlines l :=
  List.append_assoc line ['\n'] (unlines l)

theorem search_registers (regs : Regs) (s : List Char) :
    searchX05 true (unlines ((List.finRange 32).map (regLine regs)) ++ s) = some (regs 5).toNat := by
  obtain ⟨l, l', hsplit, hfirst⟩ : ∃ l l', List.finRange 32 = l ++ 5 :: l' ∧ ∀ i ∈ l, i ≠ 5 :=
    ⟨(List.finRange 32).take 5, (List.finRange 32).drop 6, by decide, by decide⟩
  have hpassed : ∀ line ∈ l.map (regLine regs), Passed line := by
    intro line hline
    obtain ⟨i, hi, rfl⟩ := List.mem_map.1 hline
    exact passed_regLine regs (hfirst i hi)
  have hmatch := matchX05_regLine regs (unlines (l'.map (regLine regs)) ++ s)
  obtain ⟨t, ht⟩ : ∃ t, regLine regs 5 = 'x' :: t := ⟨_, rfl⟩
  rw [hsplit, List.map_append, List.map_cons, unlines_append, unlines_cons, List.append_assoc, Passed.search hpassed,
    List.append_assoc]
  rw [ht, List.cons_append] at hmatch ⊢
  rw [List.cons_append, searchX05, if_pos rfl, hmatch]
  rfl

/-! ## The whole output -/

/-- paths that break no line -/
structure Plain (o : Options) : Prop where
  trace : ∀ c ∈ o.tracePath.toList, isLineEnd c = false
  rtlTrace : ∀ c ∈ o.rtlTracePath.toList, isLineEnd c = false

/-- lines that neither the tables nor the search for the register see -/
def Quiet (l : List (List Char)) : Prop := ∀ line ∈ l, Silent line ∧ line.head? ≠ some 'x'

theorem Quiet.append {l l' : List (List Char)} (h : Quiet l) (h' : Quiet l') : Quiet (l ++ l') := by
  intro line hline
  rcases List.mem_append.1 hline with hline | hline
  · exact h line hline
  · exact h' line hline

theorem quiet_correlation (fl : Floats) (model : PerformanceStats) (rtl : RtlTraceSummary) :
    Quiet ((rtlCorrelation fl model rtl).map String.toList) := by
  intro line hline
  refine ⟨silent_correlation fl model rtl line hline, ?_⟩
  have hhead : ∀ {head : String} (s : List Char), (head.toList.head?.any fun c => c ≠ 'x') = true →
      (head.toList ++ s).head? ≠ some 'x' := by
    intro head s h
    cases hl : head.toList with
    | nil =>
      rw [hl] at h
      cases h
    | cons c l =>
      rw [hl] at h
      simpa using h
  unfold rtlCorrelation verdict at hline
  simp only [List.map_cons, List.map_nil, List.mem_cons, List.not_mem_nil, or_false, String.toList_append,
    List.append_assoc] at hline
  rcases hline with rfl | rfl | rfl | rfl | rfl | rfl | rfl | rfl | rfl | rfl | rfl
  · decide
  · decide
  all_goals try exact hhead _ (by decide)
  split_ifs <;> decide

theorem quiet_path {head : String} (h : head ∈ silentHeads) {path : String}
    (hpath : ∀ c ∈ path.toList, isLineEnd c = false) : Quiet [head.toList ++ path.toList] := by
  intro line hline
  rw [List.mem_singleton.1 hline]
  refine ⟨silent_head h hpath, ?_⟩
  obtain ⟨hcolon, hx, -⟩ := silentHeads_wellFormed head h
  cases hl : head.toList with
  | nil =>
    rw [hl] at hcolon
    cases hcolon
  | cons c l =>
    rw [hl] at hx
    exact hx

theorem quiet_empty : Quiet [[]] := by
  intro line hline
  rw [List.mem_singleton.1 hline]
  exact ⟨⟨fun c hc => absurd hc List.not_mem_nil, Or.inl List.not_mem_nil⟩, by decide⟩

/-- **The output of a run is lines**: the statistics, quiet lines, the registers if they are asked for, quiet lines. -/
theorem report_lines {w : World} {fl : Floats} {o : Options} {t : CpuModel o.config} (hpaths : Plain o)
    (h : (report w fl o t).code = 0) : ∃ first last, Quiet first ∧ Quiet last ∧
      (report w fl o t).stdout = unlines (layout.map (Item.line t.stats (fl.rates t.stats))) ++ (unlines first ++
        ((if o.dumpRegs then unlines ((List.finRange 32).map (regLine t.regs)) else []) ++ unlines last)) := by
  have hregisters : Quiet [[], "=== Registers ===".toList] := by
    intro line hline
    rcases List.mem_cons.1 hline with rfl | hline
    · exact quiet_empty [] List.mem_cons_self
    · rw [List.mem_singleton.1 hline]
      exact ⟨⟨by decide, Or.inl (by decide)⟩, by decide⟩
  have htitle : Quiet (if o.dumpRegs then [[], "=== Registers ===".toList] else []) := by
    split_ifs
    · exact hregisters
    · exact fun line hline => absurd hline List.not_mem_nil
  have hmodel : Quiet [[], "Model trace: ".toList ++ o.tracePath.toList] :=
    quiet_empty.append (quiet_path (by decide) hpaths.trace)
  have hdump : (if o.dumpRegs then dumpRegs t.regs else []) =
      unlines (if o.dumpRegs then [[], "=== Registers ===".toList] else []) ++
        (if o.dumpRegs then unlines ((List.finRange 32).map (regLine t.regs)) else []) := by
    split_ifs
    · rw [dumpRegs_lines]
      exact List.flatMap_append
    · rfl
  have hpath : unlines [[], "Model trace: ".toList ++ o.tracePath.toList] =
      "\nModel trace: ".toList ++ o.tracePath.toList ++ ['\n'] := congrArg ('\n' :: ·) (List.append_nil _)
  unfold report at h ⊢
  by_cases hrtl : o.rtlTracePath = ""
  · simp only [if_pos hrtl, print_layout, hdump]
    refine ⟨_, _, htitle, hmodel, ?_⟩
    simp only [hpath, List.append_assoc]
  · have hlast := hmodel.append (@quiet_path "RTL trace  : " (by decide) _ hpaths.rtlTrace)
    simp only [if_neg hrtl] at h ⊢
    cases hsummary : RtlSummary.readRtlSummary o.rtlTracePath (w.files o.rtlTracePath) with
    | error e =>
      rw [hsummary] at h
      cases h
    | ok rtl =>
      simp only [print_layout, hdump]
      refine ⟨_, _, (quiet_correlation fl t.stats rtl).append htitle, hlast, ?_⟩
      have hrtlPath : unlines ["RTL trace  : ".toList ++ o.rtlTracePath.toList] =
          "RTL trace  : ".toList ++ o.rtlTracePath.toList ++ ['\n'] := List.append_nil _
      simp only [unlines_append, hpath, hrtlPath, List.append_assoc]

theorem report_stderr {w : World} {fl : Floats} {o : Options} {t : CpuModel o.config} (h : (report w fl o t).code = 0) :
    (report w fl o t).stderr = [] := by
  unfold report at h ⊢
  by_cases hrtl : o.rtlTracePath = ""
  · simp only [if_pos hrtl]
  · simp only [if_neg hrtl] at h ⊢
    cases hsummary : RtlSummary.readRtlSummary o.rtlTracePath (w.files o.rtlTracePath) with
    | error e =>
      rw [hsummary] at h
      cases h
    | ok rtl => rfl

theorem report_trace (w : World) (fl : Floats) (o : Options) (t : CpuModel o.config) :
    (report w fl o t).trace = if o.tracePath = "" then none else some (Writer.traceWriter.file t.trace) := by
  unfold report
  by_cases hrtl : o.rtlTracePath = ""
  · simp only [if_pos hrtl]
  · simp only [if_neg hrtl]
    cases RtlSummary.readRtlSummary o.rtlTracePath (w.files o.rtlTracePath) <;> rfl

theorem Quiet.passed {l : List (List Char)} (h : Quiet l) : ∀ line ∈ l, Passed line := fun line hline =>
  passed_of_head (h line hline).1.plain (h line hline).2

/-- the lines of the statistics -/
theorem passed_layout (st : PerformanceStats) (r : Rates) : ∀ line ∈ layout.map (Item.line st r), Passed line := by
  have hopening : ∀ i ∈ layout, i.opening.head? ≠ some 'x' := by decide +kernel
  intro line hline
  obtain ⟨i, hi, rfl⟩ := List.mem_map.1 hline
  apply passed_of_head (Item.line_plain (layout_wellFormed i hi))
  rw [Item.head_line (layout_wellFormed i hi)]
  exact hopening i hi

/-- what a script makes of the printed registers -/
def signature (script : Script) (o : Options) (regs : Regs) (out : Dict) : Dict :=
  if script = .milestone4 ∧ o.dumpRegs = true then Function.update out "x5" (some ((regs 5).toNat : ℤ)) else out

/-- **What a script reads of the whole output**: what it reads of the statistics, and the register. -/
theorem parse_report {w : World} {fl : Floats} {o : Options} {t : CpuModel o.config} (hpaths : Plain o)
    (h : (report w fl o t).code = 0) (script : Script) : script.parse (String.ofList (report w fl o t).stdout) =
      signature script o t.regs (script.parse (t.stats.print (fl.rates t.stats))) := by
  obtain ⟨first, last, hfirst, hlast, hstdout⟩ := report_lines hpaths h
  have hlines : readLines script.keys (String.ofList (report w fl o t).stdout) =
      readLines script.keys (t.stats.print (fl.rates t.stats)) := by
    have hregisters : ∀ line ∈ (if o.dumpRegs then (List.finRange 32).map (regLine t.regs) else []), Silent line := by
      intro line hline
      split_ifs at hline
      · obtain ⟨i, -, rfl⟩ := List.mem_map.1 hline
        exact silent_regLine t.regs i
      · cases hline
    have hdump : (if o.dumpRegs then unlines ((List.finRange 32).map (regLine t.regs)) else []) =
        unlines (if o.dumpRegs then (List.finRange 32).map (regLine t.regs) else []) := by
      split_ifs <;> rfl
    have hbehind : ∀ line ∈ first ++ ((if o.dumpRegs then (List.finRange 32).map (regLine t.regs) else []) ++ last),
        Silent line := by
      intro line hline
      rcases List.mem_append.1 hline with hline | hline
      · exact (hfirst line hline).1
      rcases List.mem_append.1 hline with hline | hline
      · exact hregisters line hline
      · exact (hlast line hline).1
    have hlayout : ∀ line ∈ layout.map (Item.line t.stats (fl.rates t.stats)), ∀ c ∈ line, isLineEnd c = false := by
      intro line hline
      obtain ⟨i, hi, rfl⟩ := List.mem_map.1 hline
      exact Item.line_plain (layout_wellFormed i hi)
    unfold readLines
    rw [String.toList_ofList, hstdout, print_layout, hdump, ← unlines_append, ← unlines_append, ← unlines_append,
      splitLines_unlines, splitLines_unlines hlayout, List.foldl_append, Silent.readLines hbehind]
    intro line hline
    rcases List.mem_append.1 hline with hline | hline
    · exact hlayout line hline
    · exact (hbehind line hline).plain
  have hsearch : searchX05 true (report w fl o t).stdout = if o.dumpRegs then some (t.regs 5).toNat else none := by
    rw [hstdout, Passed.search (passed_layout _ _), Passed.search hfirst.passed]
    split_ifs
    · exact search_registers t.regs _
    · have hend := Passed.search hlast.passed []
      rwa [List.append_nil] at hend
  unfold Script.parse signature
  rw [hlines, String.toList_ofList, hsearch, searchX05_print]
  cases script <;> cases o.dumpRegs <;> rfl

end Main

end Rv32im
