/-
The loader of hexadecimal programs (`Memory::load_hex_words`).

What was written before an exception stays written. `path` is part of the texts of the exceptions only; the file is its
bytes, or nothing where it could not be opened.

- `loadHexWords`: the loader. `readToken`: what it makes of one token. `applyItem`: what it does with it.
- `loadHexWords_ok`: it returns exactly when every token is read and every item is applied.
- `applyItems_isOk`: the items are applied exactly when every word lands inside memory.
- `loadHexWords_returns`: it never hangs.
-/
import Rv32im.Core.Exec
import Rv32im.Core.CppText
import Rv32im.Model.Memory

namespace Rv32im

open CppText

inductive LoadExn where
  | notOpened (path : String)
  | invalidToken (path : String) (line : ℕ) (token : List Char)
  | stoul (e : StoulError)
  | memory (e : Exn)
deriving DecidableEq, Repr

/-- the text of the exception; both exceptions of the conversion carry its name -/
def LoadExn.what : LoadExn → String
  | .notOpened path => "Could not open hex program: " ++ path
  | .invalidToken path line token => "Invalid hex token at " ++ path ++ ":" ++ toString line ++ ": " ++
      String.ofList token
  | .stoul _ => "stoul"
  | .memory e => e.what

namespace HexLoader

/-- the smaller of two positions, where the second one may be `npos` -/
def cutAt (cut : ℕ) : Option ℕ → ℕ
  | some i => min cut i
  | none => cut

/-- the line before its first comment -/
def stripComment (line : List Char) : List Char :=
  let slash := find ['/', '/'] line
  let hash := find ['#'] line
  let semi := find [';'] line
  let cut := line.length
  let cut := cutAt cut slash
  let cut := cutAt cut hash
  let cut := cutAt cut semi
  line.take cut

/-- a token without its prefix -/
def unprefixed (token : List Char) : List Char :=
  if ['0', 'x'].isPrefixOf token ∨ ['0', 'X'].isPrefixOf token then token.drop 2 else token

def write32 (addr word : BitVec 32) : Exec LoadExn Memory Unit := do
  let m ← Exec.get
  let m ← Exec.lift ((m.write32 addr word).mapError .memory)
  Exec.modify fun _ => m

/-- `std::stoul(s, nullptr, 16)` -/
def stoul (s : List Char) : Exec LoadExn Memory ℕ := Exec.lift ((CppText.stoul s).mapError .stoul)

variable (path : String)

/-- one turn of the loop over the tokens of a line, with the address behind it -/
def loadToken (line : ℕ) (base addr : BitVec 32) (token : List Char) : Exec LoadExn Memory (BitVec 32) :=
  if token.head? = some '@' then do
    let wordIndex ← stoul token.tail
    return base + BitVec.ofNat 32 wordIndex * 4
  else
    let token := unprefixed token
    Exec.rethrow (LoadExn.invalidToken path line token) do
      let word ← stoul token
      write32 addr (BitVec.ofNat 32 word)
      return addr + 4

def loadTokens (line : ℕ) (base : BitVec 32) : BitVec 32 → List (List Char) → Exec LoadExn Memory (BitVec 32)
  | addr, [] => pure addr
  | addr, token :: tokens => do
    let addr ← loadToken path line base addr token
    loadTokens line base addr tokens

/-- the loop over the lines behind line `n` -/
def loadLines (base : BitVec 32) : ℕ → BitVec 32 → List (List Char) → Exec LoadExn Memory (BitVec 32)
  | _, addr, [] => pure addr
  | n, addr, line :: lines => do
    let addr ← loadTokens path (n + 1) base addr (words (stripComment line))
    loadLines base (n + 1) addr lines

def loadHexWords (file : Option (List Char)) (base : BitVec 32) : Exec LoadExn Memory Unit :=
  match file with
  | none => Exec.raise (.notOpened path)
  | some text => do
    let _ ← loadLines path base 0 base (getlines text)
    return ()

/-! ## Items -/

/-- a directive with its word index, or a word -/
inductive Item where
  | directive (k : ℕ)
  | word (n : ℕ)
deriving DecidableEq, Repr

/-- what a token is taken for -/
def readToken (token : List Char) : Except StoulError Item :=
  if token.head? = some '@' then (CppText.stoul token.tail).map .directive
  else (CppText.stoul (unprefixed token)).map .word

/-- the items of the tokens that are read -/
def readItems (ts : List (List Char)) : List Item := ts.filterMap fun t => (readToken t).toOption

/-- what an item does to the address and to the memory -/
def applyItem (base : BitVec 32) (p : BitVec 32 × Memory) : Item → Except Exn (BitVec 32 × Memory)
  | .directive k => .ok (base + BitVec.ofNat 32 k * 4, p.2)
  | .word n => (p.2.write32 p.1 (BitVec.ofNat 32 n)).map fun m => (p.1 + 4, m)

/-- the tokens of a file -/
def tokens (text : List Char) : List (List Char) := (getlines text).flatMap fun line => words (stripComment line)

theorem stoul_ok {s : List Char} {n : ℕ} {m m' : Memory} :
    stoul s m = .ok n m' ↔ CppText.stoul s = .ok n ∧ m = m' := by
  unfold stoul
  rw [Exec.lift_ok]
  cases CppText.stoul s <;> simp [Except.mapError]

theorem write32_ok {addr word : BitVec 32} {u : Unit} {m m' : Memory} :
    write32 addr word m = .ok u m' ↔ m.write32 addr word = .ok m' := by
  unfold write32
  simp only [Exec.bind_ok, Exec.get_apply, Exec.lift_ok, Exec.modify_apply]
  cases hwrite : m.write32 addr word <;> simp [Except.mapError, hwrite]

variable {path}

/-- **One token:** it is read and its item is applied. -/
theorem loadToken_ok {line : ℕ} {base addr addr' : BitVec 32} {token : List Char} {m m' : Memory} :
    loadToken path line base addr token m = .ok addr' m' ↔
      ∃ item, readToken token = .ok item ∧ applyItem base (addr, m) item = .ok (addr', m') := by
  unfold loadToken readToken
  split_ifs with hat
  · simp only [Exec.bind_ok, stoul_ok, Exec.pure_apply]
    cases CppText.stoul token.tail with
    | error e => simp [Except.map]
    | ok k => simp [Except.map, applyItem]
  · simp only [Exec.rethrow_ok, Exec.bind_ok, stoul_ok, write32_ok, Exec.pure_apply]
    cases CppText.stoul (unprefixed token) with
    | error e => simp [Except.map]
    | ok n => cases hwrite : m.write32 addr (BitVec.ofNat 32 n) <;> simp [Except.map, applyItem, hwrite, and_comm]

theorem readItems_cons {t : List Char} {item : Item} (h : readToken t = .ok item) (ts : List (List Char)) :
    readItems (t :: ts) = item :: readItems ts := by
  unfold readItems
  rw [List.filterMap_cons_some (by rw [h]; rfl)]

theorem loadTokens_ok {line : ℕ} {base addr addr' : BitVec 32} {ts : List (List Char)} {m m' : Memory} :
    loadTokens path line base addr ts m = .ok addr' m' ↔ (∀ t ∈ ts, ∃ item, readToken t = .ok item) ∧
      (readItems ts).foldlM (applyItem base) (addr, m) = .ok (addr', m') := by
  induction ts generalizing addr m with
  | nil => simp [loadTokens, readItems, pure, Except.pure]
  | cons t ts ih =>
    rw [loadTokens, List.forall_mem_cons]
    simp only [Exec.bind_ok, loadToken_ok, ih]
    refine ⟨?_, ?_⟩
    · intro ⟨addr₁, m₁, ⟨item, hread, happly⟩, hrest, hfold⟩
      refine ⟨⟨⟨item, hread⟩, hrest⟩, ?_⟩
      rw [readItems_cons hread, List.foldlM_cons, happly]
      exact hfold
    · intro ⟨⟨⟨item, hread⟩, hrest⟩, hfold⟩
      rw [readItems_cons hread, List.foldlM_cons] at hfold
      obtain ⟨p, happly, hfold⟩ := Exec.except_bind_ok.1 hfold
      exact ⟨p.1, p.2, ⟨item, hread, happly⟩, hrest, hfold⟩

/-- the lines of a file are loaded as its tokens in a row -/
theorem loadLines_ok {base addr addr' : BitVec 32} {n : ℕ} {lines : List (List Char)} {m m' : Memory} :
    loadLines path base n addr lines m = .ok addr' m' ↔
      (∀ t ∈ lines.flatMap fun line => words (stripComment line), ∃ item, readToken t = .ok item) ∧
        (readItems (lines.flatMap fun line => words (stripComment line))).foldlM (applyItem base) (addr, m) =
          .ok (addr', m') := by
  induction lines generalizing n addr m with
  | nil => simp [loadLines, readItems, pure, Except.pure]
  | cons line lines ih =>
    have hitems : ∀ ts us, readItems (ts ++ us) = readItems ts ++ readItems us := fun _ _ => List.filterMap_append
    rw [loadLines, List.flatMap_cons, List.forall_mem_append, hitems, List.foldlM_append]
    simp only [Exec.bind_ok, loadTokens_ok, ih]
    refine ⟨?_, ?_⟩
    · intro ⟨addr₁, m₁, ⟨hread, happly⟩, hrest, hfold⟩
      refine ⟨⟨hread, hrest⟩, ?_⟩
      rw [happly]
      exact hfold
    · intro ⟨⟨hread, hrest⟩, hfold⟩
      obtain ⟨p, happly, hfold⟩ := Exec.except_bind_ok.1 hfold
      exact ⟨p.1, p.2, ⟨hread, happly⟩, hrest, hfold⟩

/-- **The loader returns** exactly when every token is read and every item is applied. -/
theorem loadHexWords_ok {base : BitVec 32} {text : List Char} {m m' : Memory} :
    loadHexWords path (some text) base m = .ok () m' ↔ (∀ t ∈ tokens text, ∃ item, readToken t = .ok item) ∧
      ∃ addr, (readItems (tokens text)).foldlM (applyItem base) (base, m) = .ok (addr, m') := by
  unfold loadHexWords
  simp only [Exec.bind_ok, loadLines_ok, Exec.pure_apply]
  refine ⟨?_, ?_⟩
  · intro ⟨addr, m₁, ⟨hread, hfold⟩, hend⟩
    cases hend
    exact ⟨hread, addr, hfold⟩
  · intro ⟨hread, addr, hfold⟩
    exact ⟨addr, m', ⟨hread, hfold⟩, rfl⟩

/-! ## Where the words land -/

/-- the words of a list of items, each with its address -/
def landings (base : BitVec 32) : BitVec 32 → List Item → List (BitVec 32 × ℕ)
  | _, [] => []
  | _, .directive k :: items => landings base (base + BitVec.ofNat 32 k * 4) items
  | addr, .word n :: items => (addr, n) :: landings base (addr + 4) items

theorem applyItem_word {base addr : BitVec 32} {n : ℕ} {m : Memory} {p : BitVec 32 × Memory} :
    applyItem base (addr, m) (.word n) = .ok p ↔
      ∃ m', m.write32 addr (BitVec.ofNat 32 n) = .ok m' ∧ p = (addr + 4, m') := by
  unfold applyItem
  cases hwrite : m.write32 addr (BitVec.ofNat 32 n) <;> simp [Except.map, hwrite, eq_comm]

/-- the items are applied exactly when every word lands inside memory -/
theorem applyItems_isOk {base addr : BitVec 32} {items : List Item} {m : Memory} :
    (∃ p, items.foldlM (applyItem base) (addr, m) = .ok p) ↔
      ∀ q ∈ landings base addr items, q.1.toNat + 4 ≤ m.size := by
  induction items generalizing addr m with
  | nil => simp [landings, pure, Except.pure]
  | cons item items ih =>
    cases item with
    | directive k => exact ih
    | word n =>
      simp only [List.foldlM_cons, Exec.except_bind_ok, applyItem_word, landings, List.forall_mem_cons]
      refine ⟨?_, ?_⟩
      · intro ⟨p, p', ⟨m', hwrite, hp⟩, hrest⟩
        subst hp
        have hsize := Memory.write32_size hwrite
        exact ⟨Memory.write32_isOk.1 ⟨m', hwrite⟩, hsize ▸ ih.1 ⟨p, hrest⟩⟩
      · intro ⟨hin, hrest⟩
        obtain ⟨m', hwrite⟩ := Memory.write32_isOk.2 hin
        rw [← Memory.write32_size hwrite] at hrest
        obtain ⟨p, hp⟩ := ih.2 hrest
        exact ⟨p, (addr + 4, m'), ⟨m', hwrite, rfl⟩, hp⟩

/-! ## The loader never hangs -/

theorem loadToken_diverge {line : ℕ} {base addr : BitVec 32} {token : List Char} {m : Memory} :
    loadToken path line base addr token m ≠ .diverge := by
  intro h
  unfold loadToken at h
  split_ifs at h
  · rcases Exec.bind_diverge.1 h with h | ⟨k, m₁, -, h⟩
    · exact Exec.lift_diverge h
    · cases h
  · rcases Exec.bind_diverge.1 (Exec.rethrow_diverge.1 h) with h | ⟨n, m₁, -, h⟩
    · exact Exec.lift_diverge h
    rcases Exec.bind_diverge.1 h with h | ⟨u, m₂, -, h⟩
    · rcases Exec.bind_diverge.1 h with h | ⟨m₃, m₄, -, h⟩
      · cases h
      rcases Exec.bind_diverge.1 h with h | ⟨m₅, m₆, -, h⟩
      · exact Exec.lift_diverge h
      · cases h
    · cases h

theorem loadTokens_diverge {line : ℕ} {base addr : BitVec 32} {ts : List (List Char)} {m : Memory} :
    loadTokens path line base addr ts m ≠ .diverge := by
  induction ts generalizing addr m with
  | nil => nofun
  | cons t ts ih =>
    intro h
    rcases Exec.bind_diverge.1 h with h | ⟨addr', m', -, h⟩
    · exact loadToken_diverge h
    · exact ih h

theorem loadLines_diverge {base addr : BitVec 32} {n : ℕ} {lines : List (List Char)} {m : Memory} :
    loadLines path base n addr lines m ≠ .diverge := by
  induction lines generalizing n addr m with
  | nil => nofun
  | cons line lines ih =>
    intro h
    rcases Exec.bind_diverge.1 h with h | ⟨addr', m', -, h⟩
    · exact loadTokens_diverge h
    · exact ih h

/-- **The loader returns or throws.** -/
theorem loadHexWords_returns (path : String) (base : BitVec 32) (text : List Char) (m : Memory) :
    (∃ m', loadHexWords path (some text) base m = .ok () m') ∨
      ∃ e m', loadHexWords path (some text) base m = .throw e m' := by
  cases h : loadHexWords path (some text) base m with
  | ok u m' => exact .inl ⟨m', rfl⟩
  | throw e m' => exact .inr ⟨e, m', rfl⟩
  | diverge =>
    rcases Exec.bind_diverge.1 h with h | ⟨addr, m', -, h⟩
    · exact absurd h loadLines_diverge
    · cases h

end HexLoader

end Rv32im
