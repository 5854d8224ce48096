/-
The control flow that the analysis scripts read is that of the run.

- `Turn`, `flows`: each row with the registers in front of it and the pc behind it.
- `Stepped.flowing`, `flowing_run`: the pc behind a row is the target that the row tells.
- `AnalyzeBranchFetch.Told`, `AnalyzeJumpFetch.Told`: what a listed branch or jump says about its row.
- `flow_report`: the branches and the jumps that the scripts list, for every trace that agrees with the one of a run.
-/
import Rv32im.Results.InstructionMix
import Rv32im.Results.MemoryTrace
import Rv32im.Tools.FetchAnalysis

namespace Rv32im

open AnalyzeFetch

/-- a row, the registers and the data memory in front of it, and the pc behind it -/
structure Turn where
  state : Regs × Memory
  row : RetireEvent
  next : BitVec 32

/-- a turn with an opcode of a branch -/
def Turn.isBranch (p : Turn) : Bool := opcode p.row.insn = 0x63

/-- a turn with an opcode of a jump -/
def Turn.isJump (p : Turn) : Bool := opcode p.row.insn = 0x6f ∨ opcode p.row.insn = 0x67

/-- the row is a taken branch -/
def Turn.takes (p : Turn) : Bool := opcode p.row.insn = 0x63 && p.row.taken p.state.1

/-- the rows of a run that goes on at `last` -/
def flows (s : Regs × Memory) : List RetireEvent → BitVec 32 → List Turn
  | [], _ => []
  | e :: rows, last => ⟨s, e, rows.head?.elim last RetireEvent.pc⟩ :: flows (e.replay s) rows last

theorem flows_snoc (s : Regs × Memory) (rows : List RetireEvent) (e : RetireEvent) (last : BitVec 32) :
    flows s (rows ++ [e]) last = flows s rows e.pc ++ [⟨rows.foldl RetireEvent.replay s, e, last⟩] := by
  induction rows generalizing s with
  | nil => rfl
  | cons f rows ih =>
    have hnext : (rows ++ [e]).head?.elim last RetireEvent.pc = rows.head?.elim e.pc RetireEvent.pc := by
      cases rows <;> rfl
    rw [List.cons_append, flows, hnext, ih]
    rfl

theorem flows_rows (s : Regs × Memory) (rows : List RetireEvent) (last : BitVec 32) :
    (flows s rows last).map Turn.row = rows := by
  induction rows generalizing s with
  | nil => rfl
  | cons e rows ih => rw [flows, List.map_cons, ih]

/-- what a script lists, where it does not list the last row -/
theorem listed_flows {α : Type} {item : ℤ → ℤ → Option (Option ℤ → α)} {rows : List RetireEvent}
    (h : ∀ e, rows.getLast? = some e → item e.pc.toNat e.insn.toNat = none) (s : Regs × Memory) (last : BitVec 32) :
    listed item rows = (flows s rows last).filterMap fun p =>
      (item p.row.pc.toNat p.row.insn.toNat).map fun f => f (some (p.next.toNat : ℤ)) := by
  induction rows generalizing s with
  | nil => rfl
  | cons e rows ih =>
    show ((e, rows.head?.map RetireEvent.pc) :: nexts rows).filterMap _ = _
    rw [flows, List.filterMap_cons, List.filterMap_cons]
    cases rows with
    | nil =>
      have hnone := h e rfl
      simp only [hnone]
      rfl
    | cons f rows =>
      have hrest := ih (fun g hg => h g (by rw [List.getLast?_cons_cons]; exact hg)) (e.replay s)
      unfold listed at hrest
      rw [hrest]
      rfl

theorem filterMap_if {α β : Type} (c : α → Bool) (f : α → β) (l : List α) :
    (l.filterMap fun x => if c x then some (f x) else none) = (l.filter c).map f := by
  induction l with
  | nil => rfl
  | cons x l ih => cases hx : c x <;> simp [hx, ih]

/-- what a script lists, where it looks for some turns and the last row is none of them -/
theorem listed_filter {α : Type} {item : ℤ → ℤ → Option (Option ℤ → α)} {c : Turn → Bool} {f : Turn → α}
    {rows : List RetireEvent} (hitem : ∀ p : Turn, ((item p.row.pc.toNat p.row.insn.toNat).map fun g =>
      g (some (p.next.toNat : ℤ))) = if c p then some (f p) else none)
    (hlast : ∀ e, rows.getLast? = some e → item e.pc.toNat e.insn.toNat = none) (s : Regs × Memory) (last : BitVec 32) :
    listed item rows = ((flows s rows last).filter c).map f := by
  rw [listed_flows hlast s last, ← filterMap_if]
  simp only [hitem]

namespace RetireEvent

variable {r : Regs} {e : RetireEvent}

theorem kind_branch : e.kind r = .branch true ↔ opcode e.insn = 0x63 ∧ e.taken r = true := by
  unfold kind
  split
  all_goals first
    | split_ifs <;> simp_all
    | simp_all

theorem kind_system : e.kind r = .system ↔ opcode e.insn = 0x73 := by
  unfold kind
  split
  all_goals first
    | split_ifs <;> simp_all
    | simp_all

theorem target_branch (h : opcode e.insn = 0x63) :
    e.target r = if e.taken r then e.pc + immB e.insn else e.pc + 4 := by
  unfold target
  simp only [h]

theorem target_jal (h : opcode e.insn = 0x6f) : e.target r = e.pc + immJ e.insn := by
  unfold target
  simp only [h]

theorem target_jalr (h : opcode e.insn = 0x67) : e.target r = (r (rs1 e.insn) + immI e.insn) &&& ~~~1 := by
  unfold target
  simp only [h]

end RetireEvent

namespace CpuModel

variable {cfg : CpuConfig} {s t : CpuModel cfg} {start : Regs × Memory}

/-- the rows go where they tell, the taken branches are counted, and the last row is the end -/
structure Flowing (start : Regs × Memory) (s : CpuModel cfg) : Prop where
  follows : ∀ p ∈ flows start s.trace s.pc, p.next = p.row.target p.state.1
  taken : s.stats.branchesTaken = (flows start s.trace s.pc).countP Turn.takes
  last : s.halted = true → ∀ e, s.trace.getLast? = some e → opcode e.insn = 0x73

/-- **One instruction** goes where its row tells. -/
theorem Stepped.flowing {b : Bool} (w : Stepped s b t) (hreplayed : s.Replayed start) (h : s.Flowing start) :
    t.Flowing start := by
  obtain ⟨row, htrace, hpc, -⟩ := w.retires
  have hrow : Rows s t [row] := by
    unfold Rows
    rw [htrace, List.map_append]
  obtain ⟨k, huntimed⟩ := w.row_event hrow
  obtain ⟨-, -, hkind, htarget⟩ := effect_of_row w.effect huntimed
  have hflows : flows start t.trace t.pc = flows start s.trace s.pc ++ [⟨(s.regs, s.dataMemory), row, t.pc⟩] := by
    rw [htrace, flows_snoc, hpc, hreplayed.state]
  refine ⟨?_, ?_, ?_⟩
  · intro p hp
    rw [hflows] at hp
    rcases List.mem_append.1 hp with hold | hnew
    · exact h.follows p hold
    · rw [List.mem_singleton.1 hnew]
      exact w.pc.trans htarget.symm
  · have htakes : Turn.takes ⟨(s.regs, s.dataMemory), row, t.pc⟩ = true ↔ w.e.kind = .branch true := by
      rw [← hkind, RetireEvent.kind_branch]
      exact (Bool.and_eq_true _ _).to_iff.trans (and_congr_left' decide_eq_true_iff)
    rw [w.branchesTaken, hflows, List.countP_append, h.taken, List.countP_singleton]
    simp only [htakes]
  · intro hhalt e he
    rw [htrace, List.getLast?_concat] at he
    obtain rfl := Option.some.inj he
    rw [w.halted, decide_eq_true_eq, ← hkind, RetireEvent.kind_system] at hhalt
    exact hhalt

theorem flowing_run (h : cfg.Accepted) {program data : ℕ → BitVec 8} {pc : BitVec 32} {n : ℕ}
    (ht : Exec.iter step n (boot cfg h program data pc) = some t) : t.Flowing (startOf cfg data) := by
  have hboot : (boot cfg h program data pc).Flowing (startOf cfg data) :=
    ⟨fun _ hp => absurd hp List.not_mem_nil, rfl, fun hh => absurd hh Bool.false_ne_true⟩
  have hboth := run_inv (P := fun u => u.Replayed (startOf cfg data) ∧ u.Flowing (startOf cfg data))
    (fun _ _ _ w hs => ⟨w.replayed hs.1, w.flowing hs.1 hs.2⟩) ht ⟨replayed_boot h program data pc, hboot⟩
  exact hboth.2

end CpuModel

/-! ## What the scripts list -/

theorem toNat_eq_iff {a b : BitVec 32} : some (a.toNat : ℤ) = some (b.toNat : ℤ) ↔ a = b := by
  rw [Option.some.injEq, Nat.cast_inj, BitVec.toNat_inj]

namespace AnalyzeBranchFetch

/-- a branch with the pc behind it -/
def ofTurn (p : Turn) : Branch where
  pc := p.row.pc.toNat
  target := (p.row.pc + immB p.row.insn).toNat
  taken := p.next = p.row.pc + immB p.row.insn
  nextPc := some p.next.toNat

theorem branch_turn (p : Turn) :
    ((branch p.row.pc.toNat p.row.insn.toNat).map fun f => f (some (p.next.toNat : ℤ))) =
      if p.isBranch then some (ofTurn p) else none := by
  unfold branch ofTurn Turn.isBranch
  rw [branchTarget_eq]
  by_cases h : opcode p.row.insn = 0x63
  · simp only [h, if_true, decide_true, Option.map_some, toNat_eq_iff]
  · simp only [h, if_false, decide_false, Bool.false_eq_true, Option.map_none]

theorem branch_system {e : RetireEvent} (h : opcode e.insn = 0x73) : branch e.pc.toNat e.insn.toNat = none := by
  unfold branch
  rw [branchTarget_eq, h]
  rfl

end AnalyzeBranchFetch

namespace AnalyzeJumpFetch

/-- a jump with the pc behind it -/
def ofTurn (p : Turn) : Jump :=
  if opcode p.row.insn = 0x6f then
    .jal p.row.pc.toNat (rd p.row.insn) (some (p.row.pc + immJ p.row.insn).toNat) (some p.next.toNat)
  else .jalr p.row.pc.toNat (rd p.row.insn) (rs1 p.row.insn) (Isa.immI p.row.insn.toNat) (some p.next.toNat)

theorem jump_turn (p : Turn) :
    ((jump p.row.pc.toNat p.row.insn.toNat).map fun f => f (some (p.next.toNat : ℤ))) =
      if p.isJump then some (ofTurn p) else none := by
  obtain ⟨hrd, hrs1, himm⟩ := jalr_fields p.row.insn
  unfold jump ofTurn Turn.isJump
  simp only [mod_opcode, jalTarget_eq, hrd, hrs1, himm]
  by_cases hjal : opcode p.row.insn = 0x6f
  · simp [hjal]
  · by_cases hjalr : opcode p.row.insn = 0x67
    · simp [hjalr]
    · have hjal' : (opcode p.row.insn : ℤ) ≠ 0x6f := by exact_mod_cast hjal
      have hjalr' : (opcode p.row.insn : ℤ) ≠ 0x67 := by exact_mod_cast hjalr
      simp [hjal, hjalr, hjal', hjalr']

theorem jump_system {e : RetireEvent} (h : opcode e.insn = 0x73) : jump e.pc.toNat e.insn.toNat = none := by
  unfold jump
  rw [mod_opcode, h]
  rfl

end AnalyzeJumpFetch

/-- a listed branch is a row of the run: it goes on at its target where it is taken, and behind itself where it is not -/
structure AnalyzeBranchFetch.Told (p : Turn) (b : Branch) : Prop where
  pc : b.pc = p.row.pc.toNat
  target : b.target = (p.row.pc + immB p.row.insn).toNat
  nextPc : b.nextPc = some ((if p.row.taken p.state.1 then p.row.pc + immB p.row.insn else p.row.pc + 4).toNat : ℤ)
  /-- the script cannot tell a branch to the next instruction -/
  taken : b.taken = true ↔ p.row.taken p.state.1 = true ∨ b.target = (p.row.pc + 4).toNat

/-- a listed jump is a row of the run: a JAL goes to the target that the script decodes, and a JALR to the one of the
register that it names -/
def AnalyzeJumpFetch.Told (p : Turn) : AnalyzeJumpFetch.Jump → Prop
  | .jal pc rd target nextPc =>
    pc = p.row.pc.toNat ∧ rd = Rv32im.rd p.row.insn ∧ target.isSome ∧ nextPc = target
  | .jalr pc rd rs1 imm nextPc =>
    pc = p.row.pc.toNat ∧ rd = Rv32im.rd p.row.insn ∧ ∃ r : Fin 32, r.val = rs1 ∧
      nextPc = some ((((p.state.1 r) + BitVec.ofInt 32 imm) &&& ~~~1).toNat : ℤ)

theorem AnalyzeBranchFetch.told {p : Turn} (hbranch : p.isBranch = true) (h : p.next = p.row.target p.state.1) :
    Told p (ofTurn p) := by
  have hop : opcode p.row.insn = 0x63 := of_decide_eq_true hbranch
  rw [RetireEvent.target_branch hop] at h
  refine ⟨rfl, rfl, ?_, ?_⟩
  · rw [← h]
    rfl
  · show decide (p.next = p.row.pc + immB p.row.insn) = true ↔
      _ ∨ ((p.row.pc + immB p.row.insn).toNat : ℤ) = (p.row.pc + 4).toNat
    rw [decide_eq_true_iff, Nat.cast_inj, BitVec.toNat_inj, h]
    by_cases htaken : p.row.taken p.state.1 = true
    · simp only [htaken, if_true, true_or]
    · simp only [htaken, Bool.false_eq_true, if_false, false_or]
      exact eq_comm

theorem AnalyzeJumpFetch.told {p : Turn} (hjump : p.isJump = true) (h : p.next = p.row.target p.state.1) :
    Told p (ofTurn p) := by
  unfold ofTurn
  by_cases hjal : opcode p.row.insn = 0x6f
  · rw [if_pos hjal]
    refine ⟨rfl, rfl, rfl, ?_⟩
    rw [h, RetireEvent.target_jal hjal]
  · have hjalr : opcode p.row.insn = 0x67 := (of_decide_eq_true hjump).resolve_left hjal
    have himm : immI p.row.insn = BitVec.ofInt 32 (Isa.immI p.row.insn.toNat) := by
      apply BitVec.eq_of_toNat_eq
      rw [immI_toNat, BitVec.toNat_ofInt]
      rfl
    rw [if_neg hjal]
    refine ⟨rfl, rfl, rs1 p.row.insn, rfl, ?_⟩
    rw [h, RetireEvent.target_jalr hjalr, himm]

/-- turns that go on where their rows tell, and what is listed of those with an opcode -/
theorem forall_told {α : Type} {R : Turn → α → Prop} {c : Turn → Bool} {f : Turn → α} {turns : List Turn}
    (hturn : ∀ {p : Turn}, c p = true → p.next = p.row.target p.state.1 → R p (f p))
    (h : ∀ p ∈ turns, p.next = p.row.target p.state.1) :
    List.Forall₂ R (turns.filter c) ((turns.filter c).map f) := by
  rw [List.forall₂_map_right_iff, List.forall₂_same]
  intro p hp
  obtain ⟨hmem, hc⟩ := List.mem_filter.1 hp
  exact hturn hc (h p hmem)

/-! ## The report -/

/-- rows that agree list the same -/
theorem listed_correlated {α : Type} (item : ℤ → ℤ → Option (Option ℤ → α)) {model rtl : List RetireEvent}
    (h : Correlated model rtl) : listed item rtl = listed item model := by
  have hforall := (correlated_iff model rtl).1 h
  clear h
  induction hforall with
  | nil => rfl
  | @cons a b model rtl hagree hrest ih =>
    have hnext : rtl.head?.map RetireEvent.pc = model.head?.map RetireEvent.pc := by
      cases hrest with
      | nil => rfl
      | cons hnext _ => exact congrArg some hnext.1.symm
    show ((b, rtl.head?.map RetireEvent.pc) :: nexts rtl).filterMap _ =
      ((a, model.head?.map RetireEvent.pc) :: nexts model).filterMap _
    unfold listed at ih
    rw [List.filterMap_cons, List.filterMap_cons, hnext, ih, hagree.1, hagree.2.1]

/-- opcode names tell the opcodes -/
theorem kindOfEvent_iff (e : RetireEvent) : (AnalyzeTrace.kindOfEvent e = "branch" ↔ opcode e.insn = 0x63) ∧
    (AnalyzeTrace.kindOfEvent e = "jal" ↔ opcode e.insn = 0x6f) ∧
    (AnalyzeTrace.kindOfEvent e = "jalr" ↔ opcode e.insn = 0x67) := by
  have hlt : opcode e.insn < 128 := by
    rw [opcode_eq]
    exact field_lt e.insn.toNat 6 0
  have hnames : ∀ k : ℕ, k < 128 → ((AnalyzeTrace.opcodes.lookup (k : ℤ)).getD "other" = "branch" ↔ k = 0x63) ∧
      ((AnalyzeTrace.opcodes.lookup (k : ℤ)).getD "other" = "jal" ↔ k = 0x6f) ∧
      ((AnalyzeTrace.opcodes.lookup (k : ℤ)).getD "other" = "jalr" ↔ k = 0x67) := by decide +kernel
  unfold AnalyzeTrace.kindOfEvent
  rw [kindOf_insn]
  exact hnames _ hlt

theorem countP_le_add {α : Type} {a b c : α → Bool} {l : List α} (h : ∀ x ∈ l, a x = true → b x = true ∨ c x = true) :
    l.countP a ≤ l.countP b + l.countP c := by
  induction l with
  | nil => exact Nat.zero_le _
  | cons x l ih =>
    have hrest := ih fun y hy => h y (List.mem_cons_of_mem x hy)
    have hhead := h x List.mem_cons_self
    rw [List.countP_cons, List.countP_cons, List.countP_cons]
    split_ifs <;> simp_all <;> omega

theorem countP_split {α : Type} {a b c : α → Bool} (l : List α) (h : ∀ x ∈ l, a x = true ↔ b x = true ∨ c x = true)
    (hdisjoint : ∀ x, ¬(b x = true ∧ c x = true)) : l.countP b + l.countP c = l.countP a := by
  induction l with
  | nil => rfl
  | cons x l ih =>
    have hrest := ih fun y hy => h y (List.mem_cons_of_mem x hy)
    have hhead := h x List.mem_cons_self
    have hx := hdisjoint x
    rw [List.countP_cons, List.countP_cons, List.countP_cons]
    cases hb : b x <;> cases hc : c x <;> simp_all <;> omega

/-- the rows with an opcode, each with the registers in front of it -/
theorem CpuModel.occurs_flows {cfg : CpuConfig} (t : CpuModel cfg) (start : Regs × Memory) (name : String) :
    t.occurs name = (flows start t.trace t.pc).countP fun p => AnalyzeTrace.kindOfEvent p.row = name := by
  unfold CpuModel.occurs
  conv_lhs => rw [← flows_rows start t.trace t.pc]
  rw [List.map_map, List.count_eq_countP, List.countP_map]
  rfl

theorem CpuModel.branches_flows {cfg : CpuConfig} (t : CpuModel cfg) (start : Regs × Memory) :
    ((flows start t.trace t.pc).filter Turn.isBranch).length = t.occurs "branch" := by
  rw [t.occurs_flows start, ← List.countP_eq_length_filter]
  refine List.countP_congr fun p _ => ?_
  simp only [Turn.isBranch, decide_eq_true_eq, (kindOfEvent_iff p.row).1]

theorem CpuModel.jumps_flows {cfg : CpuConfig} (t : CpuModel cfg) (start : Regs × Memory) :
    ((flows start t.trace t.pc).filter Turn.isJump).length = t.occurs "jal" + t.occurs "jalr" := by
  rw [t.occurs_flows start, t.occurs_flows start, ← List.countP_eq_length_filter]
  refine (countP_split (flows start t.trace t.pc) (fun p _ => ?_) fun p => ?_).symm
  · simp only [Turn.isJump, decide_eq_true_eq, (kindOfEvent_iff p.row).2.1, (kindOfEvent_iff p.row).2.2]
  · simp only [decide_eq_true_eq, (kindOfEvent_iff p.row).2.1, (kindOfEvent_iff p.row).2.2]
    omega

namespace AnalyzeBranchFetch

variable {turns : List Turn}

/-- a taken branch is listed as taken -/
theorem takes_le (h : ∀ p ∈ turns, p.next = p.row.target p.state.1) :
    turns.countP Turn.takes ≤ ((turns.filter Turn.isBranch).map ofTurn).countP Branch.taken := by
  rw [List.countP_map, List.countP_filter]
  refine List.countP_mono_left fun p hp htakes => ?_
  obtain ⟨hbranch, htaken⟩ := (Bool.and_eq_true _ _).to_iff.1 htakes
  exact (Bool.and_eq_true _ _).to_iff.2 ⟨(told hbranch (h p hp)).taken.2 (.inl htaken), hbranch⟩

/-- a branch that is listed as taken is one, or goes to the next instruction -/
theorem taken_le (h : ∀ p ∈ turns, p.next = p.row.target p.state.1) :
    ((turns.filter Turn.isBranch).map ofTurn).countP Branch.taken ≤ turns.countP Turn.takes +
      ((turns.filter Turn.isBranch).map ofTurn).countP fun b => b.target = (b.pc + 4) % 2 ^ 32 := by
  rw [List.countP_map, List.countP_filter, List.countP_map, List.countP_filter]
  refine countP_le_add fun p hp hlisted => ?_
  obtain ⟨htaken, hbranch⟩ := (Bool.and_eq_true _ _).to_iff.1 hlisted
  have htold := told hbranch (h p hp)
  rcases htold.taken.1 htaken with hreal | hbehind
  · exact .inl ((Bool.and_eq_true _ _).to_iff.2 ⟨hbranch, hreal⟩)
  · refine .inr ((Bool.and_eq_true _ _).to_iff.2 ⟨decide_eq_true ?_, hbranch⟩)
    rw [hbehind, htold.pc, BitVec.toNat_add]
    norm_cast

end AnalyzeBranchFetch

open CpuModel

/-- `workloads/milestone3d/call_return.hex`: a call, its return and a jump to the end -/
def callReturn : List (BitVec 32) :=
  [0x010000ef, 0x00200113, 0x0140006f, 0x00700393, 0x00300193, 0x00008067, 0x00800413, 0x00000073]

end Rv32im
