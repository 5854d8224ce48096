/-
Hexadecimal images: what a rendered list of items leaves in memory.

A list of words and directives is rendered with any spelling of its numbers, any white space and line splitting, and any
comments at line ends (`FileOf`). Addresses are natural numbers here, taken modulo 2^32.

- `fileTokens_spell`: the tokens of a rendered file spell its items, one by one.
- `landings_eq`: the loader's addresses are the addresses of the items.
- `loads_items`: a file whose tokens are read leaves the words of its items. `loads_zeros`: the same over zeros.
- `image_loads`: the loader writes the words in their order and nothing else, so the last word at an address is read back.
-/
import Rv32im.Results.HexGrammar
import Rv32im.Isa.Access

namespace Rv32im

namespace HexLoader

open CppText Text

/-! ## Renderings -/

/-- one to eight digits of either case -/
structure Hexadecimal (n : ℕ) (s : List Char) : Prop where
  digits : ∀ c ∈ s, isHex c = true
  length : 1 ≤ s.length ∧ s.length ≤ 8
  value : hexValue s = n

/-- the spellings of an item -/
inductive Spells : Item → List Char → Prop where
  | word {n : ℕ} {s : List Char} : Hexadecimal n s → Spells (.word n) s
  | prefixedWord {n : ℕ} {s : List Char} {x : Char} :
      x = 'x' ∨ x = 'X' → Hexadecimal n s → Spells (.word n) ('0' :: x :: s)
  | directive {k : ℕ} {s : List Char} : Hexadecimal k s → Spells (.directive k) ('@' :: s)
  | prefixedDirective {k : ℕ} {s : List Char} {x : Char} :
      x = 'x' ∨ x = 'X' → Hexadecimal k s → Spells (.directive k) ('@' :: '0' :: x :: s)

/-- white space within a line -/
def IsGap (c : Char) : Prop := isBlank c = true ∧ c ≠ '\n'

/-- the items of a line without its comment -/
inductive BodyOf : List Item → List Char → Prop where
  | blank {g : List Char} : (∀ c ∈ g, IsGap c) → BodyOf [] g
  | last {item : Item} {g w : List Char} : (∀ c ∈ g, IsGap c) → Spells item w → BodyOf [item] (g ++ w)
  | cons {item : Item} {items : List Item} {g w s : List Char} {c : Char} : (∀ d ∈ g, IsGap d) → Spells item w →
      IsGap c → BodyOf items s → BodyOf (item :: items) (g ++ (w ++ c :: s))

inductive CommentOf : List Char → Prop where
  | none : CommentOf []
  | slash {s : List Char} : '\n' ∉ s → CommentOf ('/' :: '/' :: s)
  | hash {s : List Char} : '\n' ∉ s → CommentOf ('#' :: s)
  | semi {s : List Char} : '\n' ∉ s → CommentOf (';' :: s)

/-- the items of a file; the last line may lack its line feed -/
inductive FileOf : List Item → List Char → Prop where
  | last {items : List Item} {body comment : List Char} : BodyOf items body → CommentOf comment →
      FileOf items (body ++ comment)
  | cons {items rest : List Item} {body comment s : List Char} : BodyOf items body → CommentOf comment →
      FileOf rest s → FileOf (items ++ rest) (body ++ comment ++ '\n' :: s)

/-- the words of a list of items, each with its 32-bit address: four bytes for a word, and a directive counts words from
`base` -/
def placements (base : ℕ) : ℕ → List Item → List (ℕ × ℕ)
  | _, [] => []
  | _, .directive k :: items => placements base (base + 4 * k) items
  | a, .word n :: items => (a % 2 ^ 32, n) :: placements base (a + 4) items

/-- writing the words in their order -/
def writeWords (image : ℕ → ℕ) (words : List (ℕ × ℕ)) : ℕ → ℕ :=
  words.foldl (fun image q => Isa.write image q.1 q.2 4) image

/-- memory `m'` is `m` with words written in their order -/
structure Written (m m' : Memory) (words : List (ℕ × ℕ)) : Prop where
  size : m'.size = m.size
  image : m'.image = writeWords m.image words
  readable : ∀ q later, (∃ earlier, words = earlier ++ q :: later) → (∀ r ∈ later, r.1 ≠ q.1) →
    m'.read32 (BitVec.ofNat 32 q.1) = .ok (BitVec.ofNat 32 q.2)
  uncovered : ∀ b, (∀ q ∈ words, b < q.1 ∨ q.1 + 4 ≤ b) → m'.image b = m.image b

/-! ## Tokens of a rendering -/

theorem Spells.read {item : Item} {w : List Char} (h : Spells item w) : readToken w = .ok item := by
  have hne : ∀ {n : ℕ} {s : List Char}, Hexadecimal n s → Digits s := by
    intro n s hs
    refine ⟨?_, hs.digits⟩
    rintro rfl
    exact absurd hs.length.1 (by decide)
  have hlt : ∀ {n : ℕ} {s : List Char}, Hexadecimal n s → hexValue s < 2 ^ 32 := by
    intro n s hs
    calc hexValue s < (0 + 1) * 16 ^ s.length := hexFrom_lt s 0
      _ ≤ (0 + 1) * 16 ^ 8 := Nat.mul_le_mul_left _ (Nat.pow_le_pow_right (by decide) hs.length.2)
      _ = 2 ^ 32 := by norm_num
  have hdirective : ∀ {k : ℕ} {s : List Char}, Hexadecimal k s → CppText.stoul s = .ok k := by
    intro k s hs
    rw [stoul_word (hne hs) (hlt hs), hs.value]
  cases h with
  | word hs => rw [readToken_word (hne hs) (hlt hs), hs.value]
  | prefixedWord hx hs => rw [readToken_prefixed (hne hs) (hlt hs) hx, hs.value]
  | directive hs =>
    rw [readToken_at, hdirective hs]
    rfl
  | prefixedDirective hx hs =>
    rw [readToken_at, stoul_prefixed hs.digits (hne hs).1 hx, hdirective hs]
    rfl

/-- a character of a token ends no line, no token and no line's code -/
def IsWord (c : Char) : Prop := isBlank c = false ∧ c ≠ '/' ∧ c ≠ '#' ∧ c ≠ ';'

theorem isWord_hex {c : Char} (h : isHex c = true) : IsWord c :=
  ⟨isBlank_of_isHex h, isHex_ne h rfl, isHex_ne h rfl, isHex_ne h rfl⟩

theorem Spells.isWord {item : Item} {w : List Char} (h : Spells item w) : w ≠ [] ∧ ∀ c ∈ w, IsWord c := by
  have hzero : IsWord '0' := isWord_hex rfl
  have hat : IsWord '@' := ⟨rfl, by decide, by decide, by decide⟩
  have hx : ∀ {x : Char}, x = 'x' ∨ x = 'X' → IsWord x := by
    rintro x (rfl | rfl)
    · exact ⟨rfl, by decide, by decide, by decide⟩
    · exact ⟨rfl, by decide, by decide, by decide⟩
  have hdigits : ∀ {n : ℕ} {s : List Char}, Hexadecimal n s → ∀ c ∈ s, IsWord c :=
    fun hs c hc => isWord_hex (hs.digits c hc)
  cases h with
  | word hs =>
    refine ⟨?_, hdigits hs⟩
    rintro rfl
    exact absurd hs.length.1 (by decide)
  | prefixedWord hprefix hs =>
    exact ⟨List.cons_ne_nil _ _, List.forall_mem_cons.2 ⟨hzero, List.forall_mem_cons.2 ⟨hx hprefix, hdigits hs⟩⟩⟩
  | directive hs => exact ⟨List.cons_ne_nil _ _, List.forall_mem_cons.2 ⟨hat, hdigits hs⟩⟩
  | prefixedDirective hprefix hs =>
    exact ⟨List.cons_ne_nil _ _, List.forall_mem_cons.2 ⟨hat, List.forall_mem_cons.2 ⟨hzero,
      List.forall_mem_cons.2 ⟨hx hprefix, hdigits hs⟩⟩⟩⟩

/-- a line's code has no line feed and starts no comment -/
theorem BodyOf.plain {items : List Item} {body : List Char} (h : BodyOf items body) :
    ∀ c ∈ body, c ≠ '\n' ∧ c ≠ '/' ∧ c ≠ '#' ∧ c ≠ ';' := by
  have hgap : ∀ {c : Char}, IsGap c → c ≠ '\n' ∧ c ≠ '/' ∧ c ≠ '#' ∧ c ≠ ';' := by
    intro c ⟨hblank, hline⟩
    refine ⟨hline, ?_, ?_, ?_⟩
    all_goals
      rintro rfl
      cases hblank
  have hword : ∀ {c : Char}, IsWord c → c ≠ '\n' ∧ c ≠ '/' ∧ c ≠ '#' ∧ c ≠ ';' := by
    intro c ⟨hblank, hrest⟩
    refine ⟨?_, hrest⟩
    rintro rfl
    cases hblank
  induction h with
  | blank hg => exact fun c hc => hgap (hg c hc)
  | last hg hw =>
    intro c hc
    rcases List.mem_append.1 hc with hc | hc
    · exact hgap (hg c hc)
    · exact hword (hw.isWord.2 c hc)
  | cons hg hw hsep _ ih =>
    intro c hc
    rcases List.mem_append.1 hc with hc | hc
    · exact hgap (hg c hc)
    rcases List.mem_append.1 hc with hc | hc
    · exact hword (hw.isWord.2 c hc)
    rcases List.mem_cons.1 hc with rfl | hc
    · exact hgap hsep
    · exact ih c hc

theorem BodyOf.words {items : List Item} {body : List Char} (h : BodyOf items body) :
    List.Forall₂ Spells items (CppText.words body) := by
  have hword : ∀ {item : Item} {w : List Char}, Spells item w → CppText.words w = [w] :=
    fun hw => words_word (fun c hc => (hw.isWord.2 c hc).1) hw.isWord.1
  induction h with
  | blank hg =>
    rename_i g
    have hwords := words_blanks (fun c hc => (hg c hc).1) []
    rw [List.append_nil] at hwords
    rw [hwords]
    exact .nil
  | last hg hw =>
    rw [words_blanks (fun c hc => (hg c hc).1), hword hw]
    exact .cons hw .nil
  | cons hg hw hsep _ ih =>
    rw [words_blanks (fun c hc => (hg c hc).1), words_append _ _ hsep.1, hword hw]
    exact .cons hw ih

theorem uncomment_comment {comment : List Char} (h : CommentOf comment) : uncomment comment = [] := by
  cases h <;> rfl

theorem uncomment_append {body comment : List Char} (hbody : ∀ c ∈ body, c ≠ '\n' ∧ c ≠ '/' ∧ c ≠ '#' ∧ c ≠ ';')
    (h : CommentOf comment) : uncomment (body ++ comment) = body := by
  induction body with
  | nil => exact uncomment_comment h
  | cons c body ih =>
    obtain ⟨-, hslash, hhash, hsemi⟩ := hbody c List.mem_cons_self
    rw [List.cons_append, uncomment, if_neg (not_or.2 ⟨hhash, hsemi⟩),
      ih fun d hd => hbody d (List.mem_cons_of_mem c hd)]
    intro t hc _
    exact hslash hc

/-- **The tokens of a rendered file** spell its items. -/
theorem fileTokens_spell {items : List Item} {text : List Char} (h : FileOf items text) :
    List.Forall₂ Spells items (fileTokens text) := by
  have hline : ∀ {items body comment}, BodyOf items body → CommentOf comment → '\n' ∉ body ++ comment ∧
      List.Forall₂ Spells items (words (uncomment (body ++ comment))) := by
    intro items body comment hbody hcomment
    refine ⟨?_, ?_⟩
    · intro hmem
      rcases List.mem_append.1 hmem with hmem | hmem
      · exact (hbody.plain _ hmem).1 rfl
      · cases hcomment with
        | none => cases hmem
        | slash hs => simp [hs] at hmem
        | hash hs => simp [hs] at hmem
        | semi hs => simp [hs] at hmem
    · rw [uncomment_append hbody.plain hcomment]
      exact hbody.words
  induction h with
  | last hbody hcomment =>
    rename_i items body comment
    obtain ⟨hfeed, hspell⟩ := hline hbody hcomment
    unfold fileTokens
    rcases eq_or_ne (body ++ comment) [] with hnil | hne
    · rw [hnil] at hspell ⊢
      exact hspell
    · rw [getlines_line hfeed hne, List.flatMap_singleton]
      exact hspell
  | cons hbody hcomment _ ih =>
    obtain ⟨hfeed, hspell⟩ := hline hbody hcomment
    unfold fileTokens
    rw [getlines_append hfeed, List.flatMap_cons]
    exact List.rel_append hspell ih

theorem readItems_spell {items : List Item} {ts : List (List Char)} (h : List.Forall₂ Spells items ts) :
    (∀ t ∈ ts, ∃ item, readToken t = .ok item) ∧ readItems ts = items := by
  induction h with
  | nil => exact ⟨nofun, rfl⟩
  | cons hw _ ih =>
    obtain ⟨hread, hitems⟩ := ih
    refine ⟨List.forall_mem_cons.2 ⟨⟨_, hw.read⟩, hread⟩, ?_⟩
    rw [readItems_cons hw.read, hitems]

/-! ## Addresses -/

theorem landings_eq (base : BitVec 32) (a : ℕ) (items : List Item) :
    (landings base (BitVec.ofNat 32 a) items).map (fun q => (q.1.toNat, q.2)) = placements base.toNat a items := by
  induction items generalizing a with
  | nil => rfl
  | cons item items ih =>
    cases item with
    | directive k => rw [landings, placements, resume_eq, ih]
    | word n =>
      have haddr : BitVec.ofNat 32 a + 4 = BitVec.ofNat 32 (a + 4) := (BitVec.ofNat_add a 4).symm
      rw [landings, placements, List.map_cons, haddr, ih, BitVec.toNat_ofNat]

/-- every word has the alignment of the base -/
theorem placements_mod {base a : ℕ} (ha : a % 4 = base % 4) {items : List Item} {q : ℕ × ℕ}
    (hq : q ∈ placements base a items) : q.1 % 4 = base % 4 := by
  induction items generalizing a with
  | nil => cases hq
  | cons item items ih =>
    cases item with
    | directive k => exact ih (by omega) hq
    | word n =>
      rcases List.mem_cons.1 hq with rfl | hq
      · calc a % 2 ^ 32 % 4 = a % 4 := Nat.mod_mod_of_dvd a (by decide)
          _ = base % 4 := ha
      · exact ih (by omega) hq

/-! ## Memory -/

/-- four bytes hold a word modulo 2^32 -/
theorem write_word (image : ℕ → ℕ) (a n : ℕ) : Isa.write image a (n % 2 ^ 32) 4 = Isa.write image a n 4 := by
  funext b
  rw [Isa.write_apply, Isa.write_apply]
  split_ifs with h
  · obtain ⟨d, hd⟩ : ∃ d, b - a = d := ⟨_, rfl⟩
    have hlt : d < 4 := by omega
    rw [hd]
    interval_cases d <;> omega
  · rfl

/-- applied items write their words -/
theorem applyItems_image {base addr : BitVec 32} {items : List Item} {m : Memory} {p : BitVec 32 × Memory}
    (hsize : m.size ≤ 2 ^ 32) (h : items.foldlM (applyItem base) (addr, m) = .ok p) :
    p.2.size = m.size ∧
      p.2.image = writeWords m.image ((landings base addr items).map fun q => (q.1.toNat, q.2)) := by
  induction items generalizing addr m with
  | nil =>
    cases h
    exact ⟨rfl, rfl⟩
  | cons item items ih =>
    rw [List.foldlM_cons] at h
    obtain ⟨p', happly, hrest⟩ := Exec.except_bind_ok.1 h
    cases item with
    | directive k =>
      cases happly
      exact ih hsize hrest
    | word n =>
      obtain ⟨m', hwrite, rfl⟩ := applyItem_word.1 happly
      have hkeep := Memory.write32_size hwrite
      have himage := write32_eq m addr (BitVec.ofNat 32 n) hsize
      rw [hwrite, if_pos (Memory.write32_isOk.1 ⟨m', hwrite⟩), BitVec.toNat_ofNat, write_word] at himage
      obtain ⟨hsame, hwritten⟩ := ih (hkeep ▸ hsize) hrest
      rw [Option.some.inj himage] at hwritten
      exact ⟨hsame.trans hkeep, hwritten⟩

theorem writeWords_outside {image : ℕ → ℕ} {words : List (ℕ × ℕ)} {b : ℕ}
    (h : ∀ q ∈ words, b < q.1 ∨ q.1 + 4 ≤ b) : writeWords image words b = image b := by
  induction words generalizing image with
  | nil => rfl
  | cons q words ih =>
    obtain ⟨hq, hwords⟩ := List.forall_mem_cons.1 h
    calc writeWords (Isa.write image q.1 q.2 4) words b = Isa.write image q.1 q.2 4 b := ih hwords
      _ = image b := Isa.write_outside hq q.2

/-- a word that no later word overlaps is read back -/
theorem read_writeWords {image : ℕ → ℕ} {earlier later : List (ℕ × ℕ)} {q : ℕ × ℕ}
    (h : ∀ r ∈ later, r.1 + 4 ≤ q.1 ∨ q.1 + 4 ≤ r.1) :
    Isa.read (writeWords image (earlier ++ q :: later)) q.1 4 = q.2 % 2 ^ 32 := by
  have hsplit : writeWords image (earlier ++ q :: later) =
      writeWords (Isa.write (writeWords image earlier) q.1 q.2 4) later := List.foldl_append
  rw [hsplit]
  calc Isa.read (writeWords (Isa.write (writeWords image earlier) q.1 q.2 4) later) q.1 4
      = Isa.read (Isa.write (writeWords image earlier) q.1 q.2 4) q.1 4 := by
        refine Isa.read_congr fun b hle hlt => writeWords_outside fun r hr => ?_
        have hapart := h r hr
        omega
    _ = q.2 % 2 ^ 32 := Isa.read_write _ _ _ 4

/-- a placed word that no later word replaces is read back -/
theorem read32_placed {base : ℕ} {items : List Item} {image : ℕ → ℕ} {m' : Memory} (hsize : m'.size ≤ 2 ^ 32)
    (hin : ∀ q ∈ placements base base items, q.1 + 4 ≤ m'.size)
    (himage : m'.image = writeWords image (placements base base items)) {q : ℕ × ℕ} {earlier later : List (ℕ × ℕ)}
    (hsplit : placements base base items = earlier ++ q :: later) (hlast : ∀ r ∈ later, r.1 ≠ q.1) :
    m'.read32 (BitVec.ofNat 32 q.1) = .ok (BitVec.ofNat 32 q.2) := by
  have hmem : ∀ r ∈ q :: later, r ∈ placements base base items := by
    intro r hr
    rw [hsplit]
    exact List.mem_append_right _ hr
  have hq := hmem q List.mem_cons_self
  have hbound := hin q hq
  have htoNat : (BitVec.ofNat 32 q.1).toNat = q.1 := by
    rw [BitVec.toNat_ofNat, Nat.mod_eq_of_lt (by omega)]
  obtain ⟨v, hv⟩ := Memory.read32_isOk (htoNat.symm ▸ hbound)
  -- words have one alignment, so two of them overlap only at the same address
  have hapart : ∀ r ∈ later, r.1 + 4 ≤ q.1 ∨ q.1 + 4 ≤ r.1 := by
    intro r hr
    have hne := hlast r hr
    have hrmod := placements_mod rfl (hmem r (List.mem_cons_of_mem q hr))
    have hqmod := placements_mod rfl hq
    omega
  have hvalue : v.toNat = (BitVec.ofNat 32 q.2).toNat := by
    calc v.toNat = Isa.read m'.image (BitVec.ofNat 32 q.1).toNat 4 :=
          read32_toNat ((htoNat.symm ▸ hbound).trans hsize) hv
      _ = Isa.read (writeWords image (earlier ++ q :: later)) q.1 4 := by rw [htoNat, himage, hsplit]
      _ = q.2 % 2 ^ 32 := read_writeWords hapart
      _ = (BitVec.ofNat 32 q.2).toNat := (BitVec.toNat_ofNat _ _).symm
  rw [hv, BitVec.eq_of_toNat_eq hvalue]

/-- a file whose tokens are read is loaded as its items say -/
theorem loads_items (path : String) {base : BitVec 32} {text : List Char} {m : Memory} (hsize : m.size ≤ 2 ^ 32)
    (hread : ∀ t ∈ tokens text, ∃ item, readToken t = .ok item)
    (hin : ∀ q ∈ placements base.toNat base.toNat (readItems (tokens text)), q.1 + 4 ≤ m.size) :
    ∃ m', loadHexWords path (some text) base m = .ok () m' ∧ m'.size = m.size ∧
      m'.image = writeWords m.image (placements base.toNat base.toNat (readItems (tokens text))) := by
  have hwords : (landings base base (readItems (tokens text))).map (fun q => (q.1.toNat, q.2)) =
      placements base.toNat base.toNat (readItems (tokens text)) := by
    have hall := landings_eq base base.toNat (readItems (tokens text))
    rwa [BitVec.ofNat_toNat, BitVec.setWidth_eq] at hall
  have hlands : ∀ q ∈ landings base base (readItems (tokens text)), q.1.toNat + 4 ≤ m.size := by
    intro q hq
    exact hin (q.1.toNat, q.2) (hwords ▸ List.mem_map_of_mem hq)
  obtain ⟨p, hp⟩ := applyItems_isOk.2 hlands
  obtain ⟨hkeep, himage⟩ := applyItems_image hsize hp
  rw [hwords] at himage
  exact ⟨p.2, loadHexWords_ok.2 ⟨hread, p.1, hp⟩, hkeep, himage⟩

/-- words without directives, over zeros from address 0 -/
theorem loads_zeros (path : String) (text : List Char) (items : List Item) {n : ℕ} (hsize : n ≤ 2 ^ 32)
    (hitems : (tokens text).map readToken = items.map .ok) (hin : ∀ q ∈ placements 0 0 items, q.1 + 4 ≤ n) :
    ∃ m, loadHexWords path (some text) 0 (Memory.zeros n) = .ok () m ∧
      m.image = writeWords (fun _ => 0) (placements 0 0 items) := by
  have hread : ∀ t ∈ tokens text, ∃ item, readToken t = .ok item := by
    intro t ht
    have hmem := List.mem_map_of_mem (f := readToken) ht
    rw [hitems] at hmem
    obtain ⟨item, -, hitem⟩ := List.mem_map.1 hmem
    exact ⟨item, hitem.symm⟩
  have hsame : readItems (tokens text) = items := by
    calc readItems (tokens text) = ((tokens text).map readToken).filterMap Except.toOption := by
          rw [List.filterMap_map]
          rfl
      _ = items := by
          rw [hitems, List.filterMap_map]
          exact List.filterMap_some
  have hzeros : (Memory.zeros n).size = n := Array.size_replicate
  have hempty : (Memory.zeros n).image = fun _ => 0 := by
    funext a
    unfold Memory.image Memory.zeros
    by_cases ha : a < n <;> simp [Array.getD, ha]
  obtain ⟨m, hload, -, himage⟩ := @loads_items path 0 text (Memory.zeros n) (hzeros.symm ▸ hsize) hread
    (by rw [hsame, hzeros]; exact hin)
  rw [hsame, hempty] at himage
  exact ⟨m, hload, himage⟩

/-- **A rendered list of items is loaded** as the list says, whatever the spelling. -/
theorem image_loads (path : String) {base : BitVec 32} {items : List Item} {text : List Char} {m : Memory}
    (hsize : m.size ≤ 2 ^ 32) (hin : ∀ q ∈ placements base.toNat base.toNat items, q.1 + 4 ≤ m.size)
    (htext : FileOf items text) :
    ∃ m', loadHexWords path (some text) base m = .ok () m' ∧ Written m m' (placements base.toNat base.toNat items) := by
  obtain ⟨hread, hitems⟩ := readItems_spell (fileTokens_spell htext)
  rw [← tokens_eq] at hread hitems
  obtain ⟨m', hload, hkeep, himage⟩ := loads_items path hsize hread (hitems.symm ▸ hin)
  rw [hitems] at himage
  refine ⟨m', hload, hkeep, himage, ?_, ?_⟩
  · intro q later ⟨earlier, hsplit⟩ hlast
    exact read32_placed (hkeep.symm ▸ hsize) (hkeep.symm ▸ hin) himage hsplit hlast
  · intro b hb
    rw [himage]
    exact writeWords_outside hb

/-- a word with a comment behind it, a directive and a prefixed word, loaded at 8 -/
theorem image_loads_twoSegments :
    placements 8 8 [.word 0x93, .directive 4, .word 0xaF] = [(8, 0x93), (24, 0xaF)] ∧
      ∃ m', loadHexWords "program.hex"
          (some ['9', '3', ' ', '#', 'x', '\n', '\t', '@', '4', ' ', '0', 'X', 'a', 'F']) 8 (Memory.zeros 32) =
            .ok () m' ∧
        Written (Memory.zeros 32) m' [(8, 0x93), (24, 0xaF)] := by
  have hnil : ∀ c ∈ ([] : List Char), IsGap c := fun c hc => nomatch hc
  have hblank : IsGap ' ' := ⟨rfl, by decide⟩
  have htab : ∀ c ∈ ['\t'], IsGap c := List.forall_mem_singleton.2 ⟨rfl, by decide⟩
  have hword : Spells (.word 0x93) ['9', '3'] := .word ⟨List.all_eq_true.1 rfl, by decide, rfl⟩
  have hdirective : Spells (.directive 4) ('@' :: ['4']) := .directive ⟨List.all_eq_true.1 rfl, by decide, rfl⟩
  have hprefixed : Spells (.word 0xaF) ('0' :: 'X' :: ['a', 'F']) :=
    .prefixedWord (.inr rfl) ⟨List.all_eq_true.1 rfl, by decide, rfl⟩
  have htext := FileOf.cons (.cons hnil hword hblank (.blank hnil)) (.hash (s := ['x']) (by decide))
    (.last (.cons htab hdirective hblank (.last hnil hprefixed)) .none)
  have hsize : (Memory.zeros 32).size = 32 := rfl
  exact ⟨rfl, image_loads "program.hex" (by rw [hsize]; decide) (by rw [hsize]; decide) htext⟩

end HexLoader

end Rv32im
