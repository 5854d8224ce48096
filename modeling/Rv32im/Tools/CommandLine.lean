/-
The command line of the model (the option loop of `main.cpp`).

An option that needs a value takes the next argument, whatever that is. Numbers are read with `parse_u64`, so a prefix
chooses their base, and are cast to the type of their variable. `--help` ends the loop without a look at the rest.

- `readOption`: one turn of the loop. `readOptions`: the loop.
- `Setting`: an option with its value. `Setting.Spells`, `Spelt`: the arguments that spell it, and a list of them.
- `readOptions_ok`: the loop returns exactly for spelt settings, and has applied them in order.
- `Options.settings`: settings for given options. `command_line_sets`: the options that some command line sets.
-/
import Rv32im.Tools.RtlSummary

namespace Rv32im

/-- the local variables of `main` -/
structure Options where
  tracePath : String := "results/model_trace.csv"
  rtlTracePath : String := ""
  dmemHexPath : String := ""
  config : CpuConfig :=
    { icache := { lines := 64, lineBytes := 4, memoryLatency := 3, writeBack := false }
      dcache := { lines := 64, lineBytes := 4, memoryLatency := 3, writeBack := true } }
  dumpRegs : Bool := false
deriving DecidableEq, Repr

inductive OptionExn where
  | unknown (arg : String)
  | number (e : SummaryExn)
deriving DecidableEq, Repr

/-- the text of the exception -/
def OptionExn.what : OptionExn → String
  | .unknown arg => "Unknown/incomplete option: " ++ arg
  | .number e => e.what

namespace CommandLine

/-- what a turn of the loop has used: one argument or two, or it leaves for the usage -/
inductive Turn where
  | one (o : Options)
  | two (o : Options)
  | help

def number (text : String) : Except OptionExn ℕ := (RtlSummary.parseU64 text.toList).mapError .number

/-- the next argument is there exactly if `i + 1 < argc` -/
def readOption (o : Options) (arg : String) (next : Option String) : Except OptionExn Turn :=
  match arg, next with
  | "--trace", some text => .ok (.two { o with tracePath := text })
  | "--dmem-hex", some text => .ok (.two { o with dmemHexPath := text })
  | "--rtl-trace", some text => .ok (.two { o with rtlTracePath := text })
  | "--start-pc", some text => (number text).map fun n =>
      .two { o with config := { o.config with resetPc := BitVec.ofNat 32 n } }
  | "--mem-size", some text => (number text).map fun n =>
      .two { o with config := { o.config with memorySize := n } }
  | "--max-insns", some text => (number text).map fun n =>
      .two { o with config := { o.config with maxInstructions := n } }
  | "--dump-regs", _ => .ok (.one { o with dumpRegs := true })
  | "--enable-icache", _ =>
      .ok (.one { o with config := { o.config with icache := { o.config.icache with enabled := true } } })
  | "--enable-dcache", _ =>
      .ok (.one { o with config := { o.config with dcache := { o.config.dcache with enabled := true } } })
  | "--enable-caches", _ =>
      .ok (.one { o with config := { o.config with
        icache := { o.config.icache with enabled := true }, dcache := { o.config.dcache with enabled := true } } })
  | "--icache-lines", some text => (number text).map fun n =>
      .two { o with config := { o.config with icache := { o.config.icache with lines := n } } }
  | "--dcache-lines", some text => (number text).map fun n =>
      .two { o with config := { o.config with dcache := { o.config.dcache with lines := n } } }
  | "--memory-latency", some text => (number text).map fun n =>
      .two { o with config := { o.config with
        icache := { o.config.icache with memoryLatency := BitVec.ofNat 32 n }
        dcache := { o.config.dcache with memoryLatency := BitVec.ofNat 32 n } } }
  | "--help", _ => .ok .help
  | "-h", _ => .ok .help
  | arg, _ => .error (.unknown arg)

/-- the loop over the arguments behind the program; `none` leaves for the usage -/
def readOptions (o : Options) : List String → Except OptionExn (Option Options)
  | [] => .ok (some o)
  | [arg] =>
    match readOption o arg none with
    | .error e => .error e
    | .ok .help => .ok none
    | .ok (.one o) => .ok (some o)
    | .ok (.two o) => .ok (some o)
  | arg :: next :: rest =>
    match readOption o arg (some next) with
    | .error e => .error e
    | .ok .help => .ok none
    | .ok (.one o) => readOptions o (next :: rest)
    | .ok (.two o) => readOptions o rest

/-! ## Settings -/

/-- an option with its value -/
inductive Setting where
  | trace (path : String)
  | dmemHex (path : String)
  | rtlTrace (path : String)
  | startPc (n : ℕ)
  | memSize (n : ℕ)
  | maxInsns (n : ℕ)
  | dumpRegs
  | enableIcache
  | enableDcache
  | enableCaches
  | icacheLines (n : ℕ)
  | dcacheLines (n : ℕ)
  | memoryLatency (n : ℕ)
deriving DecidableEq, Repr

namespace Setting

def apply (o : Options) : Setting → Options
  | trace path => { o with tracePath := path }
  | dmemHex path => { o with dmemHexPath := path }
  | rtlTrace path => { o with rtlTracePath := path }
  | startPc n => { o with config := { o.config with resetPc := BitVec.ofNat 32 n } }
  | memSize n => { o with config := { o.config with memorySize := n } }
  | maxInsns n => { o with config := { o.config with maxInstructions := n } }
  | dumpRegs => { o with dumpRegs := true }
  | enableIcache => { o with config := { o.config with icache := { o.config.icache with enabled := true } } }
  | enableDcache => { o with config := { o.config with dcache := { o.config.dcache with enabled := true } } }
  | enableCaches => { o with config := { o.config with
      icache := { o.config.icache with enabled := true }, dcache := { o.config.dcache with enabled := true } } }
  | icacheLines n => { o with config := { o.config with icache := { o.config.icache with lines := n } } }
  | dcacheLines n => { o with config := { o.config with dcache := { o.config.dcache with lines := n } } }
  | memoryLatency n => { o with config := { o.config with
      icache := { o.config.icache with memoryLatency := BitVec.ofNat 32 n }
      dcache := { o.config.dcache with memoryLatency := BitVec.ofNat 32 n } } }

/-- the text of a number -/
def Reads (text : String) (n : ℕ) : Prop := RtlSummary.parseU64 text.toList = .ok n

instance (text : String) (n : ℕ) : Decidable (Reads text n) := by
  unfold Reads
  infer_instance

/-- the arguments that spell a setting -/
inductive Spells : Setting → List String → Prop where
  | trace (path : String) : Spells (.trace path) ["--trace", path]
  | dmemHex (path : String) : Spells (.dmemHex path) ["--dmem-hex", path]
  | rtlTrace (path : String) : Spells (.rtlTrace path) ["--rtl-trace", path]
  | startPc {text : String} {n : ℕ} (h : Reads text n) : Spells (.startPc n) ["--start-pc", text]
  | memSize {text : String} {n : ℕ} (h : Reads text n) : Spells (.memSize n) ["--mem-size", text]
  | maxInsns {text : String} {n : ℕ} (h : Reads text n) : Spells (.maxInsns n) ["--max-insns", text]
  | dumpRegs : Spells .dumpRegs ["--dump-regs"]
  | enableIcache : Spells .enableIcache ["--enable-icache"]
  | enableDcache : Spells .enableDcache ["--enable-dcache"]
  | enableCaches : Spells .enableCaches ["--enable-caches"]
  | icacheLines {text : String} {n : ℕ} (h : Reads text n) : Spells (.icacheLines n) ["--icache-lines", text]
  | dcacheLines {text : String} {n : ℕ} (h : Reads text n) : Spells (.dcacheLines n) ["--dcache-lines", text]
  | memoryLatency {text : String} {n : ℕ} (h : Reads text n) : Spells (.memoryLatency n) ["--memory-latency", text]

end Setting

/-- the arguments that spell a list of settings -/
inductive Spelt : List Setting → List String → Prop where
  | nil : Spelt [] []
  | cons {s : Setting} {l : List Setting} {words args : List String} :
      s.Spells words → Spelt l args → Spelt (s :: l) (words ++ args)

theorem number_ok {text : String} {n : ℕ} : number text = .ok n ↔ Setting.Reads text n := by
  unfold number Setting.Reads
  cases RtlSummary.parseU64 text.toList <;> simp [Except.mapError]

theorem map_number {text : String} {f : ℕ → Turn} {t : Turn} (h : (number text).map f = .ok t) :
    ∃ n, Setting.Reads text n ∧ f n = t := by
  cases hn : number text with
  | error e =>
    rw [hn] at h
    cases h
  | ok n =>
    rw [hn] at h
    exact ⟨n, number_ok.1 hn, Except.ok.inj h⟩

/-- **What a turn of the loop has read.** -/
theorem readOption_ok {o : Options} {arg : String} {next : Option String} {t : Turn} (h : readOption o arg next = .ok t) :
    (∃ s : Setting, s.Spells [arg] ∧ t = .one (s.apply o)) ∨
      (∃ (s : Setting) (text : String), next = some text ∧ s.Spells [arg, text] ∧ t = .two (s.apply o)) ∨
      ((arg = "--help" ∨ arg = "-h") ∧ t = .help) := by
  unfold readOption at h
  split at h
  · exact Or.inr (Or.inl ⟨_, _, rfl, .trace _, (Except.ok.inj h).symm⟩)
  · exact Or.inr (Or.inl ⟨_, _, rfl, .dmemHex _, (Except.ok.inj h).symm⟩)
  · exact Or.inr (Or.inl ⟨_, _, rfl, .rtlTrace _, (Except.ok.inj h).symm⟩)
  · obtain ⟨n, hn, rfl⟩ := map_number h
    exact Or.inr (Or.inl ⟨_, _, rfl, .startPc hn, rfl⟩)
  · obtain ⟨n, hn, rfl⟩ := map_number h
    exact Or.inr (Or.inl ⟨_, _, rfl, .memSize hn, rfl⟩)
  · obtain ⟨n, hn, rfl⟩ := map_number h
    exact Or.inr (Or.inl ⟨_, _, rfl, .maxInsns hn, rfl⟩)
  · exact Or.inl ⟨_, .dumpRegs, (Except.ok.inj h).symm⟩
  · exact Or.inl ⟨_, .enableIcache, (Except.ok.inj h).symm⟩
  · exact Or.inl ⟨_, .enableDcache, (Except.ok.inj h).symm⟩
  · exact Or.inl ⟨_, .enableCaches, (Except.ok.inj h).symm⟩
  · obtain ⟨n, hn, rfl⟩ := map_number h
    exact Or.inr (Or.inl ⟨_, _, rfl, .icacheLines hn, rfl⟩)
  · obtain ⟨n, hn, rfl⟩ := map_number h
    exact Or.inr (Or.inl ⟨_, _, rfl, .dcacheLines hn, rfl⟩)
  · obtain ⟨n, hn, rfl⟩ := map_number h
    exact Or.inr (Or.inl ⟨_, _, rfl, .memoryLatency hn, rfl⟩)
  · exact Or.inr (Or.inr ⟨Or.inl rfl, (Except.ok.inj h).symm⟩)
  · exact Or.inr (Or.inr ⟨Or.inr rfl, (Except.ok.inj h).symm⟩)
  · cases h

/-- a setting in one argument, whatever comes next -/
theorem readOption_one {s : Setting} {arg : String} (h : s.Spells [arg]) (o : Options) (next : Option String) :
    readOption o arg next = .ok (.one (s.apply o)) := by
  cases h <;> rfl

/-- a setting in two arguments -/
theorem readOption_two {s : Setting} {arg text : String} (h : s.Spells [arg, text]) (o : Options) :
    readOption o arg (some text) = .ok (.two (s.apply o)) := by
  have hmap : ∀ {n : ℕ} (f : ℕ → Turn), Setting.Reads text n → (number text).map f = .ok (f n) := by
    intro n f hn
    rw [number_ok.2 hn]
    rfl
  cases h with
  | trace => rfl
  | dmemHex => rfl
  | rtlTrace => rfl
  | startPc hn => exact hmap _ hn
  | memSize hn => exact hmap _ hn
  | maxInsns hn => exact hmap _ hn
  | icacheLines hn => exact hmap _ hn
  | dcacheLines hn => exact hmap _ hn
  | memoryLatency hn => exact hmap _ hn

theorem Setting.Spells.words {s : Setting} {l : List String} (h : s.Spells l) :
    (∃ arg, l = [arg]) ∨ ∃ arg text, l = [arg, text] := by
  cases h
  all_goals first
    | exact Or.inl ⟨_, rfl⟩
    | exact Or.inr ⟨_, _, rfl⟩

/-! ## The whole command line -/

section Lines

variable {o : Options} {l : List Setting} {words rest : List String}

/-- **Spelt settings are applied in order**, and the loop goes on behind them. -/
theorem readOptions_spelt (h : Spelt l words) :
    readOptions o (words ++ rest) = readOptions (l.foldl Setting.apply o) rest := by
  induction h generalizing o with
  | nil => rfl
  | @cons s l words args hs _ ih =>
    rw [List.foldl_cons, ← ih, List.append_assoc]
    rcases hs.words with ⟨arg, rfl⟩ | ⟨arg, text, rfl⟩
    · show readOptions o (arg :: (args ++ rest)) = _
      cases args ++ rest with
      | nil => simp only [readOptions, readOption_one hs]
      | cons next tail => simp only [readOptions, readOption_one hs]
    · show readOptions o (arg :: text :: (args ++ rest)) = _
      rw [readOptions, readOption_two hs]

/-- how the loop ends behind the settings that it has applied -/
inductive Ends (o : Options) : List String → Except OptionExn (Option Options) → Prop where
  | all : Ends o [] (.ok (some o))
  | help {arg : String} (rest : List String) (h : arg = "--help" ∨ arg = "-h") : Ends o (arg :: rest) (.ok none)
  | refused {arg : String} (rest : List String) {e : OptionExn} (h : readOption o arg rest.head? = .error e) :
      Ends o (arg :: rest) (.error e)

/-- settings that a command line starts with, and how the loop ends behind them -/
def Read (o : Options) (args : List String) (r : Except OptionExn (Option Options)) : Prop :=
  ∃ l words rest, Spelt l words ∧ args = words ++ rest ∧ Ends (l.foldl Setting.apply o) rest r

theorem Ends.read {args : List String} {r : Except OptionExn (Option Options)} (h : Ends o args r) : Read o args r :=
  ⟨[], [], args, .nil, rfl, h⟩

/-- behind a setting, the rest of the line is the line of a later turn -/
theorem Read.behind {s : Setting} {first args : List String} {r : Except OptionExn (Option Options)}
    (h : Read (s.apply o) args r) (hs : s.Spells first) : Read o (first ++ args) r := by
  obtain ⟨l, words, rest, hl, rfl, hend⟩ := h
  exact ⟨s :: l, first ++ words, rest, .cons hs hl, (List.append_assoc _ _ _).symm, hend⟩

/-- **Every command line** is a list of spelt settings, and behind it nothing, a call for help or a refused argument. -/
theorem readOptions_read (o : Options) (args : List String) : Read o args (readOptions o args) := by
  induction o, args using readOptions.induct with
  | case1 o => exact Ends.all.read
  | case2 o arg e hturn =>
    simp only [readOptions, hturn]
    exact (Ends.refused [] hturn).read
  | case3 o arg hturn =>
    simp only [readOptions, hturn]
    rcases readOption_ok hturn with ⟨s, -, h⟩ | ⟨s, text, -, -, h⟩ | ⟨h, -⟩
    · cases h
    · cases h
    · exact (Ends.help [] h).read
  | case4 o arg o' hturn =>
    simp only [readOptions, hturn]
    rcases readOption_ok hturn with ⟨s, hs, h⟩ | ⟨s, text, -, -, h⟩ | ⟨-, h⟩
    · obtain rfl := Turn.one.inj h
      exact Read.behind Ends.all.read hs
    · cases h
    · cases h
  | case5 o arg o' hturn =>
    rcases readOption_ok hturn with ⟨s, -, h⟩ | ⟨s, text, hnext, -, -⟩ | ⟨-, h⟩
    · cases h
    · cases hnext
    · cases h
  | case6 o arg next rest e hturn =>
    simp only [readOptions, hturn]
    exact (Ends.refused (next :: rest) hturn).read
  | case7 o arg next rest hturn =>
    simp only [readOptions, hturn]
    rcases readOption_ok hturn with ⟨s, -, h⟩ | ⟨s, text, -, -, h⟩ | ⟨h, -⟩
    · cases h
    · cases h
    · exact (Ends.help _ h).read
  | case8 o arg next rest o' hturn ih =>
    simp only [readOptions, hturn]
    rcases readOption_ok hturn with ⟨s, hs, h⟩ | ⟨s, text, -, -, h⟩ | ⟨-, h⟩
    · obtain rfl := Turn.one.inj h
      exact ih.behind hs
    · cases h
    · cases h
  | case9 o arg next rest o' hturn ih =>
    simp only [readOptions, hturn]
    rcases readOption_ok hturn with ⟨s, -, h⟩ | ⟨s, text, hnext, hs, h⟩ | ⟨-, h⟩
    · cases h
    · obtain rfl := Option.some.inj hnext
      obtain rfl := Turn.two.inj h
      exact ih.behind hs
    · cases h

/-- **The loop returns options** exactly for spelt settings. -/
theorem readOptions_ok {o' : Options} {args : List String} :
    readOptions o args = .ok (some o') ↔ ∃ l, Spelt l args ∧ l.foldl Setting.apply o = o' := by
  refine ⟨?_, ?_⟩
  · intro h
    obtain ⟨l, words, rest, hl, rfl, hend⟩ := readOptions_read o args
    rw [h] at hend
    cases hend with
    | all => exact ⟨l, (List.append_nil words).symm ▸ hl, rfl⟩
  · rintro ⟨l, hl, rfl⟩
    have happly := @readOptions_spelt o _ _ [] hl
    rwa [List.append_nil] at happly

end Lines

/-! ## What command lines can set -/

theorem parseU64_lt {text : List Char} {n : ℕ} (h : RtlSummary.parseU64 text = .ok n) : n < 2 ^ 64 := by
  have hstoull : ∀ {v used : ℕ}, CppText.stoull text = .ok (v, used) → v < 2 ^ 64 := by
    intro v used hv
    unfold CppText.stoull at hv
    simp only at hv
    split_ifs at hv with hempty hlarge hneg
    · obtain ⟨rfl, -⟩ := Prod.mk.inj (Except.ok.inj hv)
      exact Nat.mod_lt _ (by decide)
    · obtain ⟨rfl, -⟩ := Prod.mk.inj (Except.ok.inj hv)
      exact not_le.1 hlarge
  unfold RtlSummary.parseU64 at h
  cases hv : CppText.stoull text with
  | error e =>
    rw [hv] at h
    cases h
  | ok p =>
    rw [hv] at h
    simp only [Except.mapError, bind, Except.bind, pure, Except.pure] at h
    split_ifs at h
    exact Except.ok.inj h ▸ hstoull hv

theorem Setting.Reads.lt {text : String} {n : ℕ} (h : Reads text n) : n < 2 ^ 64 := parseU64_lt h

/-- a number below 2^64 has a spelling -/
theorem reads_decimal {n : ℕ} (h : n < 2 ^ 64) : Setting.Reads (String.ofList (Text.decimal n)) n := by
  unfold Setting.Reads
  rw [String.toList_ofList]
  exact RtlSummary.parseU64_decimal h

end CommandLine

namespace Options

open CommandLine

/-- what no option changes, what `--memory-latency` sets alike, and the numbers that can be read -/
structure Expressible (o : Options) : Prop where
  icacheBytes : o.config.icache.lineBytes = 4
  dcacheBytes : o.config.dcache.lineBytes = 4
  readOnly : o.config.icache.writeBack = false
  writeBack : o.config.dcache.writeBack = true
  latency : o.config.icache.memoryLatency = o.config.dcache.memoryLatency
  memorySize : o.config.memorySize < 2 ^ 64
  maxInstructions : o.config.maxInstructions < 2 ^ 64
  icacheLines : o.config.icache.lines < 2 ^ 64
  dcacheLines : o.config.dcache.lines < 2 ^ 64

theorem expressible_default : Expressible {} := by
  constructor <;> decide

/-- a spelt setting keeps the options expressible -/
theorem Expressible.apply {o : Options} (h : o.Expressible) {s : Setting} {words : List String} (hs : s.Spells words) :
    (s.apply o).Expressible := by
  obtain ⟨h1, h2, h3, h4, h5, h6, h7, h8, h9⟩ := h
  cases hs with
  | memSize hn => exact ⟨h1, h2, h3, h4, h5, hn.lt, h7, h8, h9⟩
  | maxInsns hn => exact ⟨h1, h2, h3, h4, h5, h6, hn.lt, h8, h9⟩
  | icacheLines hn => exact ⟨h1, h2, h3, h4, h5, h6, h7, hn.lt, h9⟩
  | dcacheLines hn => exact ⟨h1, h2, h3, h4, h5, h6, h7, h8, hn.lt⟩
  | memoryLatency hn => exact ⟨h1, h2, h3, h4, rfl, h6, h7, h8, h9⟩
  | _ => exact ⟨h1, h2, h3, h4, h5, h6, h7, h8, h9⟩

theorem Expressible.foldl {o : Options} (h : o.Expressible) {l : List Setting} {words : List String}
    (hl : Spelt l words) : (l.foldl Setting.apply o).Expressible := by
  induction hl generalizing o with
  | nil => exact h
  | cons hs _ ih => exact ih (h.apply hs)

/-- an option that is switched on -/
def switch (on : Bool) (s : Setting) : List Setting := if on then [s] else []

/-- settings that lead to given options -/
def settings (o : Options) : List Setting :=
  [.trace o.tracePath, .dmemHex o.dmemHexPath, .rtlTrace o.rtlTracePath, .startPc o.config.resetPc.toNat,
    .memSize o.config.memorySize, .maxInsns o.config.maxInstructions, .icacheLines o.config.icache.lines,
    .dcacheLines o.config.dcache.lines, .memoryLatency o.config.icache.memoryLatency.toNat] ++
  (switch o.dumpRegs .dumpRegs ++ (switch o.config.icache.enabled .enableIcache ++
    switch o.config.dcache.enabled .enableDcache))

theorem settings_apply {o : Options} (h : o.Expressible) : o.settings.foldl Setting.apply {} = o := by
  obtain ⟨trace, rtl, dmem, ⟨size, pc, limit, ⟨ion, ilines, ibytes, ilat, iback⟩, ⟨don, dlines, dbytes, dlat, dback⟩⟩,
    dump⟩ := o
  obtain ⟨rfl, rfl, rfl, rfl, hlatency, -⟩ := h
  obtain rfl : ilat = dlat := hlatency
  have hval : ∀ v : BitVec 32, BitVec.ofNat 32 v.toNat = v := by simp
  cases ion <;> cases don <;> cases dump <;>
    simp only [settings, switch, Bool.false_eq_true, if_true, if_false, List.nil_append, List.cons_append,
      List.foldl_cons, List.foldl_nil, Setting.apply, hval]

/-- every setting of expressible options has a spelling -/
theorem settings_spelt {o : Options} (h : o.Expressible) : ∃ args, Spelt o.settings args := by
  have hlist : ∀ l : List Setting, (∀ s ∈ l, ∃ words, s.Spells words) → ∃ args, Spelt l args := by
    intro l hl
    induction l with
    | nil => exact ⟨[], .nil⟩
    | cons s l ih =>
      obtain ⟨words, hs⟩ := hl s List.mem_cons_self
      obtain ⟨args, hargs⟩ := ih fun s' hs' => hl s' (List.mem_cons_of_mem s hs')
      exact ⟨words ++ args, .cons hs hargs⟩
  have hswitch : ∀ {on : Bool} {s s' : Setting}, s' ∈ switch on s → s' = s := by
    intro on s s' hs
    unfold switch at hs
    split_ifs at hs
    · exact List.mem_singleton.1 hs
    · cases hs
  have hword : ∀ v : BitVec 32, v.toNat < 2 ^ 64 := fun v => v.isLt.trans (by decide)
  apply hlist
  intro s hs
  rcases List.mem_append.1 hs with hs | hs
  · simp only [List.mem_cons, List.not_mem_nil, or_false] at hs
    rcases hs with rfl | rfl | rfl | rfl | rfl | rfl | rfl | rfl | rfl
    · exact ⟨_, .trace _⟩
    · exact ⟨_, .dmemHex _⟩
    · exact ⟨_, .rtlTrace _⟩
    · exact ⟨_, .startPc (reads_decimal (hword _))⟩
    · exact ⟨_, .memSize (reads_decimal h.memorySize)⟩
    · exact ⟨_, .maxInsns (reads_decimal h.maxInstructions)⟩
    · exact ⟨_, .icacheLines (reads_decimal h.icacheLines)⟩
    · exact ⟨_, .dcacheLines (reads_decimal h.dcacheLines)⟩
    · exact ⟨_, .memoryLatency (reads_decimal (hword _))⟩
  · rcases List.mem_append.1 hs with hs | hs
    · exact hswitch hs ▸ ⟨_, .dumpRegs⟩
    · rcases List.mem_append.1 hs with hs | hs
      · exact hswitch hs ▸ ⟨_, .enableIcache⟩
      · exact hswitch hs ▸ ⟨_, .enableDcache⟩

end Options

/-- **The options that command lines set.** Some command line sets given options exactly if they are expressible: four
bytes for a line, a read-only I-cache and a write-back D-cache of one latency, and sizes of 64 bits. -/
theorem command_line_sets (o : Options) :
    (∃ args, CommandLine.readOptions {} args = .ok (some o)) ↔ o.Expressible := by
  refine ⟨?_, ?_⟩
  · rintro ⟨args, h⟩
    obtain ⟨l, hl, rfl⟩ := CommandLine.readOptions_ok.1 h
    exact Options.expressible_default.foldl hl
  · intro h
    obtain ⟨args, hargs⟩ := Options.settings_spelt h
    exact ⟨args, CommandLine.readOptions_ok.2 ⟨_, hargs, Options.settings_apply h⟩⟩

end Rv32im
