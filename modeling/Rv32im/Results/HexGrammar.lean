/-
What the hexadecimal loader accepts.

The grammar: a line ends at its first `//`, `#` or `;`; a token is `@` and hexadecimal digits, or hexadecimal digits of a
value below 2^32, with or without `0x` or `0X` in front. A directive counts words from the base, and every word of a file
is to lie inside memory. The loader takes the longest number that a token starts with, and keeps 32 bits of an address.

- `addresses`: where the words of a file lie, as natural numbers. `landings_addresses`: the loader has them modulo 2^32.
- `stripComment_eq`: the loader cuts a line where the grammar does.
- `read_of_parse`: it reads every token of the grammar as the grammar does, except for a directive of 2^64 or more.
- `accepts_grammar_iff`: it accepts exactly the grammar on a file without lax tokens and such directives whose words lie
  inside memory, and elsewhere where it has another reason to throw and the grammar another reason to refuse.
-/
import Rv32im.Model.HexLoader

namespace Rv32im

namespace HexLoader

open CppText

/-! ## The grammar -/

/-- the line before its first comment -/
def uncomment : List Char → List Char
  | [] => []
  | '/' :: '/' :: _ => []
  | c :: s => if c = '#' ∨ c = ';' then [] else c :: uncomment s

/-- one or more digits -/
def Digits (s : List Char) : Prop := s ≠ [] ∧ ∀ c ∈ s, isHex c = true

instance (s : List Char) : Decidable (Digits s) :=
  decidable_of_iff (s.isEmpty = false ∧ s.all isHex = true) <| by
    rw [List.isEmpty_eq_false_iff, List.all_eq_true]
    rfl

def parseWord (s : List Char) : Option Item :=
  if Digits s ∧ hexValue s < 2 ^ 32 then some (.word (hexValue s)) else none

def parseToken : List Char → Option Item
  | '@' :: s => if Digits s then some (.directive (hexValue s)) else none
  | '0' :: 'x' :: s => parseWord s
  | '0' :: 'X' :: s => parseWord s
  | s => parseWord s

/-- the tokens that the grammar sees in a file -/
def fileTokens (text : List Char) : List (List Char) := (getlines text).flatMap fun line => words (uncomment line)

/-- the addresses of the words of a list of items: four bytes for a word, and a directive counts words from `base` -/
def addresses (base : ℕ) : ℕ → List Item → List ℕ
  | _, [] => []
  | _, .directive k :: items => addresses base (base + 4 * k) items
  | a, .word _ :: items => a :: addresses base (a + 4) items

/-- the files that are to be loaded at `base` into a memory of a given size -/
structure Accepted (size : ℕ) (base : BitVec 32) (text : List Char) : Prop where
  tokens : ∀ t ∈ fileTokens text, ∃ item, parseToken t = some item
  lands : ∀ a ∈ addresses base.toNat base.toNat ((fileTokens text).filterMap parseToken), a + 4 ≤ size

/-- the loader returns on the accepted files and throws on all others -/
structure AcceptsGrammar (path : String) (base : BitVec 32) (text : List Char) (m : Memory) : Prop where
  returns : Accepted m.size base text → ∃ m', loadHexWords path (some text) base m = .ok () m'
  throws : ¬ Accepted m.size base text → ∃ e m', loadHexWords path (some text) base m = .throw e m'

/-! ## Lines are cut alike -/

theorem cutAt_zero (o : Option ℕ) : cutAt 0 o = 0 := by
  cases o with
  | none => rfl
  | some i => exact Nat.zero_min i

theorem cutAt_found (cut : ℕ) : cutAt cut (some 0) = 0 := Nat.min_zero cut

theorem cutAt_map (n : ℕ) (o : Option ℕ) : cutAt (n + 1) (o.map (· + 1)) = cutAt n o + 1 := by
  cases o with
  | none => rfl
  | some i => exact Nat.succ_min_succ n i

theorem find_here (needle : List Char) {c : Char} {s : List Char} (h : needle.isPrefixOf (c :: s) = true) :
    find needle (c :: s) = some 0 := if_pos h

theorem find_later {needle : List Char} {c : Char} {s : List Char} (h : needle.isPrefixOf (c :: s) = false) :
    find needle (c :: s) = (find needle s).map (· + 1) := if_neg (by simp [h])

theorem stripComment_eq (line : List Char) : stripComment line = uncomment line := by
  induction line using uncomment.induct with
  | case1 => rfl
  | case2 s =>
    unfold stripComment
    rw [find_here ['/', '/'] rfl]
    simp only [cutAt_found, cutAt_zero, List.take_zero, uncomment]
  | case3 c s hslash hc =>
    unfold stripComment
    rw [uncomment, if_pos hc]
    · rcases hc with rfl | rfl
      · rw [find_here ['#'] rfl]
        simp only [cutAt_found, cutAt_zero, List.take_zero]
      · rw [find_here [';'] rfl]
        simp only [cutAt_found, List.take_zero]
    · exact hslash
  | case4 c s hslash hc ih =>
    have h₁ : ['/', '/'].isPrefixOf (c :: s) = false := by
      by_contra hpre
      rw [Bool.not_eq_false, List.isPrefixOf_iff_prefix] at hpre
      obtain ⟨t, ht⟩ := hpre
      obtain ⟨rfl, rfl⟩ := List.cons.inj ht
      exact hslash t rfl rfl
    have h₂ : ∀ d, c ≠ d → [d].isPrefixOf (c :: s) = false := by
      intro d hd
      simp [List.isPrefixOf, hd.symm]
    rw [not_or] at hc
    unfold stripComment at ih ⊢
    rw [uncomment, if_neg (not_or.2 hc), ← ih, find_later h₁, find_later (h₂ '#' hc.1), find_later (h₂ ';' hc.2)]
    · simp only [List.length_cons, cutAt_map, List.take_succ_cons]
    · exact hslash

/-- the loader sees the tokens that the grammar sees -/
theorem tokens_eq (text : List Char) : tokens text = fileTokens text := by
  unfold tokens fileTokens
  simp only [stripComment_eq]

/-! ## Tokens -/

/-- read as a number, although it is not in the grammar -/
def Lax (t : List Char) : Prop := parseToken t = none ∧ ∃ item, readToken t = .ok item

/-- a directive of 2^64 or more -/
def Long (t : List Char) : Prop := ∃ s, t = '@' :: s ∧ Digits s ∧ 2 ^ 64 ≤ hexValue s

/-- neither in the grammar nor read -/
def Refused (t : List Char) : Prop := parseToken t = none ∧ ∀ item, readToken t ≠ .ok item

theorem parseWord_some {s : List Char} {item : Item} (h : parseWord s = some item) :
    Digits s ∧ hexValue s < 2 ^ 32 ∧ item = .word (hexValue s) := by
  unfold parseWord at h
  split_ifs at h with hc
  cases h
  exact ⟨hc.1, hc.2, rfl⟩

theorem stoul_word {s : List Char} (hs : Digits s) (hlt : hexValue s < 2 ^ 32) : CppText.stoul s = .ok (hexValue s) := by
  rw [stoul_digits hs.2 hs.1]
  exact if_neg (by omega)

theorem unprefixed_digits {s : List Char} (hs : ∀ c ∈ s, isHex c = true) : unprefixed s = s := by
  refine if_neg fun h => ?_
  have hx : ∀ x, ['0', x].isPrefixOf s = true → isHex x = true := by
    intro x hpre
    obtain ⟨t, rfl⟩ := List.isPrefixOf_iff_prefix.1 hpre
    exact hs x (by simp)
  rcases h with h | h
  · exact absurd (hx 'x' h) (by decide)
  · exact absurd (hx 'X' h) (by decide)

theorem readToken_at (s : List Char) : readToken ('@' :: s) = (CppText.stoul s).map .directive := rfl

theorem readToken_word {s : List Char} (hs : Digits s) (hlt : hexValue s < 2 ^ 32) :
    readToken s = .ok (.word (hexValue s)) := by
  have hat : s.head? ≠ some '@' := by
    intro h
    exact absurd (hs.2 '@' (List.mem_of_head? h)) (by decide)
  unfold readToken
  rw [if_neg hat, unprefixed_digits hs.2, stoul_word hs hlt]
  rfl

theorem readToken_prefixed {s : List Char} (hs : Digits s) (hlt : hexValue s < 2 ^ 32) {x : Char}
    (hx : x = 'x' ∨ x = 'X') : readToken ('0' :: x :: s) = .ok (.word (hexValue s)) := by
  have hstrip : unprefixed ('0' :: x :: s) = s := by
    rcases hx with rfl | rfl
    · rfl
    · rfl
  unfold readToken
  rw [if_neg (by simp), hstrip, stoul_word hs hlt]
  rfl

/-- the loader reads a token of the grammar as the grammar does, or not at all -/
theorem read_of_parse {t : List Char} {item : Item} (h : parseToken t = some item) :
    readToken t = .ok item ∧ ¬ Long t ∨ (∀ i, readToken t ≠ .ok i) ∧ Long t := by
  have hword : t.head? ≠ some '@' → ¬ Long t := by
    intro hat ⟨s, ht, _⟩
    exact hat (by rw [ht]; rfl)
  unfold parseToken at h
  split at h
  · rename_i s
    split_ifs at h with hs
    cases h
    rw [readToken_at, stoul_digits hs.2 hs.1]
    by_cases hlong : 2 ^ 64 ≤ hexValue s
    · rw [if_pos hlong]
      exact .inr ⟨nofun, s, rfl, hs, hlong⟩
    · rw [if_neg hlong]
      refine .inl ⟨rfl, fun ⟨s', hs', _, hlong'⟩ => ?_⟩
      cases hs'
      exact hlong hlong'
  · obtain ⟨hs, hlt, rfl⟩ := parseWord_some h
    exact .inl ⟨readToken_prefixed hs hlt (.inl rfl), hword (by simp)⟩
  · obtain ⟨hs, hlt, rfl⟩ := parseWord_some h
    exact .inl ⟨readToken_prefixed hs hlt (.inr rfl), hword (by simp)⟩
  · obtain ⟨hs, hlt, rfl⟩ := parseWord_some h
    refine .inl ⟨readToken_word hs hlt, hword fun hat => ?_⟩
    exact absurd (hs.2 '@' (List.mem_of_head? hat)) (by decide)

/-- a token as the grammar reads it, or else as the loader does -/
def looseToken (t : List Char) : Option Item := (parseToken t).or (readToken t).toOption

/-- the four kinds of tokens -/
theorem token_cases (t : List Char) :
    (∃ item, parseToken t = some item ∧ readToken t = .ok item) ∨ Lax t ∨ (∃ item, parseToken t = some item) ∧ Long t ∨
      Refused t := by
  cases hp : parseToken t with
  | some item =>
    rcases read_of_parse hp with ⟨hread, -⟩ | ⟨-, hlong⟩
    · exact .inl ⟨item, rfl, hread⟩
    · exact .inr (.inr (.inl ⟨⟨item, rfl⟩, hlong⟩))
  | none =>
    by_cases hread : ∃ item, readToken t = .ok item
    · exact .inr (.inl ⟨hp, hread⟩)
    · exact .inr (.inr (.inr ⟨hp, fun item h => hread ⟨item, h⟩⟩))

theorem Long.unread {t : List Char} (h : Long t) (item : Item) : readToken t ≠ .ok item := by
  obtain ⟨s, rfl, hs, hlong⟩ := h
  intro hread
  rw [readToken_at, stoul_digits hs.2 hs.1, if_pos hlong] at hread
  cases hread

/-! ## Addresses -/

/-- where the loader goes on behind a directive -/
theorem resume_eq (base : BitVec 32) (k : ℕ) :
    base + BitVec.ofNat 32 k * 4 = BitVec.ofNat 32 (base.toNat + 4 * k) := by
  rw [BitVec.ofNat_add, BitVec.ofNat_mul, BitVec.ofNat_toNat, BitVec.setWidth_eq, BitVec.mul_comm]
  rfl

/-- the loader keeps 32 bits of every address -/
theorem landings_addresses (base : BitVec 32) (a : ℕ) (items : List Item) :
    (landings base (BitVec.ofNat 32 a) items).map (fun q => q.1.toNat) =
      (addresses base.toNat a items).map (· % 2 ^ 32) := by
  induction items generalizing a with
  | nil => rfl
  | cons item items ih =>
    cases item with
    | directive k => rw [landings, addresses, resume_eq, ih]
    | word n =>
      have hnext : BitVec.ofNat 32 a + 4 = BitVec.ofNat 32 (a + 4) := (BitVec.ofNat_add a 4).symm
      rw [landings, addresses, List.map_cons, List.map_cons, hnext, ih, BitVec.toNat_ofNat]

/-- the loader finds memory for every word exactly if the addresses modulo 2^32 lie inside -/
theorem landings_inside (size : ℕ) (base : BitVec 32) (items : List Item) :
    (∀ q ∈ landings base base items, q.1.toNat + 4 ≤ size) ↔
      ∀ a ∈ addresses base.toNat base.toNat items, a % 2 ^ 32 + 4 ≤ size := by
  have hmap := landings_addresses base base.toNat items
  rw [BitVec.ofNat_toNat, BitVec.setWidth_eq] at hmap
  calc (∀ q ∈ landings base base items, q.1.toNat + 4 ≤ size)
      ↔ ∀ a ∈ (landings base base items).map (fun q => q.1.toNat), a + 4 ≤ size := by rw [List.forall_mem_map]
    _ ↔ ∀ a ∈ addresses base.toNat base.toNat items, a % 2 ^ 32 + 4 ≤ size := by rw [hmap, List.forall_mem_map]

/-! ## Files -/

section

variable {path : String} {base : BitVec 32} {text : List Char} {m : Memory}

theorem returns_iff : (∃ m', loadHexWords path (some text) base m = .ok () m') ↔
    (∀ t ∈ fileTokens text, ∃ item, readToken t = .ok item) ∧
      ∀ a ∈ addresses base.toNat base.toNat (readItems (fileTokens text)), a % 2 ^ 32 + 4 ≤ m.size := by
  rw [← landings_inside]
  simp only [loadHexWords_ok, tokens_eq, ← applyItems_isOk]
  refine ⟨?_, ?_⟩
  · intro ⟨m', hread, addr, hfold⟩
    exact ⟨hread, (addr, m'), hfold⟩
  · intro ⟨hread, p, hfold⟩
    exact ⟨p.2, hread, p.1, hfold⟩

theorem acceptsGrammar_iff :
    AcceptsGrammar path base text m ↔
      (Accepted m.size base text ↔ ∃ m', loadHexWords path (some text) base m = .ok () m') := by
  refine ⟨?_, ?_⟩
  · intro h
    refine ⟨h.returns, fun ⟨m', hok⟩ => ?_⟩
    by_contra hrefuse
    obtain ⟨e, m'', hthrow⟩ := h.throws hrefuse
    rw [hok] at hthrow
    cases hthrow
  · intro h
    refine ⟨h.1, fun hrefuse => ?_⟩
    rcases loadHexWords_returns path base text m with hok | hthrow
    · exact absurd (h.2 hok) hrefuse
    · exact hthrow

/-- where the loader reads every token that is not long, it reads the loose items -/
theorem readItems_loose (hread : ∀ t ∈ fileTokens text, ∃ item, readToken t = .ok item) :
    readItems (fileTokens text) = (fileTokens text).filterMap looseToken := by
  refine List.filterMap_congr fun t ht => ?_
  obtain ⟨item, hitem⟩ := hread t ht
  unfold looseToken
  cases hp : parseToken t with
  | none => rfl
  | some i =>
    rcases read_of_parse hp with ⟨hsame, -⟩ | ⟨hnone, -⟩
    · rw [hsame]
      rfl
    · exact absurd hitem (hnone item)

/-- where every token is in the grammar, its items are the loose items -/
theorem parseItems_loose (hparse : ∀ t ∈ fileTokens text, ∃ item, parseToken t = some item) :
    (fileTokens text).filterMap parseToken = (fileTokens text).filterMap looseToken := by
  refine List.filterMap_congr fun t ht => ?_
  obtain ⟨item, hitem⟩ := hparse t ht
  unfold looseToken
  rw [hitem]
  rfl

/-- the addresses of the words of a file, each token read by the grammar or else by the loader -/
def looseAddresses (base : BitVec 32) (text : List Char) : List ℕ :=
  addresses base.toNat base.toNat ((fileTokens text).filterMap looseToken)

/-- a token outside the grammar keeps a file from being accepted -/
theorem not_accepted {size : ℕ} {t : List Char} (ht : t ∈ fileTokens text) (h : Lax t ∨ Refused t) :
    ¬ Accepted size base text := by
  intro haccepted
  obtain ⟨item, hitem⟩ := haccepted.tokens t ht
  have hnone : parseToken t = none := by
    rcases h with h | h
    · exact h.1
    · exact h.1
  rw [hnone] at hitem
  cases hitem

/-- a token that is not read makes the loader throw -/
theorem not_returns {t : List Char} (ht : t ∈ fileTokens text) (h : Long t ∨ Refused t) :
    ¬ ∃ m', loadHexWords path (some text) base m = .ok () m' := by
  intro hreturns
  obtain ⟨item, hitem⟩ := (returns_iff.1 hreturns).1 t ht
  rcases h with h | h
  · exact h.unread item hitem
  · exact h.2 item hitem

/-- a file of grammatical tokens is accepted where its words lie inside -/
theorem accepted_inside {size : ℕ} (hlax : ¬ ∃ t ∈ fileTokens text, Lax t)
    (hrefused : ¬ ∃ t ∈ fileTokens text, Refused t) :
    Accepted size base text ↔ ∀ a ∈ looseAddresses base text, a + 4 ≤ size := by
  have hparse : ∀ t ∈ fileTokens text, ∃ item, parseToken t = some item := by
    intro t ht
    rcases token_cases t with ⟨item, h, -⟩ | h | ⟨h, -⟩ | h
    · exact ⟨item, h⟩
    · exact absurd ⟨t, ht, h⟩ hlax
    · exact h
    · exact absurd ⟨t, ht, h⟩ hrefused
  unfold looseAddresses
  rw [← parseItems_loose hparse]
  exact ⟨fun h => h.lands, fun h => ⟨hparse, h⟩⟩

/-- a file of readable tokens is loaded where its words lie inside modulo 2^32 -/
theorem returns_inside (hlong : ¬ ∃ t ∈ fileTokens text, Long t) (hrefused : ¬ ∃ t ∈ fileTokens text, Refused t) :
    (∃ m', loadHexWords path (some text) base m = .ok () m') ↔
      ∀ a ∈ looseAddresses base text, a % 2 ^ 32 + 4 ≤ m.size := by
  have hread : ∀ t ∈ fileTokens text, ∃ item, readToken t = .ok item := by
    intro t ht
    rcases token_cases t with ⟨item, -, h⟩ | ⟨-, h⟩ | ⟨-, h⟩ | h
    · exact ⟨item, h⟩
    · exact h
    · exact absurd ⟨t, ht, h⟩ hlong
    · exact absurd ⟨t, ht, h⟩ hrefused
  unfold looseAddresses
  rw [returns_iff, ← readItems_loose hread]
  exact and_iff_right hread

theorem neither_iff : (∀ t ∈ fileTokens text, ¬ Lax t ∧ ¬ Long t) ↔
    ¬ (∃ t ∈ fileTokens text, Lax t) ∧ ¬ ∃ t ∈ fileTokens text, Long t := by
  refine ⟨fun h => ⟨?_, ?_⟩, ?_⟩
  · intro ⟨t, ht, hlax⟩
    exact (h t ht).1 hlax
  · intro ⟨t, ht, hlong⟩
    exact (h t ht).2 hlong
  · intro ⟨hlax, hlong⟩ t ht
    exact ⟨fun h => hlax ⟨t, ht, h⟩, fun h => hlong ⟨t, ht, h⟩⟩

/-- **The loader accepts exactly the grammar** on the files whose tokens are neither lax nor directives of 2^64 or more
and whose words lie inside memory, on those with a token that both refuse, on those with such a directive and another
reason to refuse, and on those with a word outside memory modulo 2^32. -/
theorem accepts_grammar_iff (path : String) (base : BitVec 32) (text : List Char) (m : Memory) :
    AcceptsGrammar path base text m ↔
      ((∀ t ∈ fileTokens text, ¬ Lax t ∧ ¬ Long t) ∧ ∀ a ∈ looseAddresses base text, a + 4 ≤ m.size) ∨
      (∃ t ∈ fileTokens text, Refused t) ∨
      ((∃ t ∈ fileTokens text, Long t) ∧
        ((∃ t ∈ fileTokens text, Lax t) ∨ ∃ a ∈ looseAddresses base text, m.size < a + 4)) ∨
      ∃ a ∈ looseAddresses base text, m.size < a % 2 ^ 32 + 4 := by
  have houtside : (∃ a ∈ looseAddresses base text, m.size < a + 4) ↔
      ¬ ∀ a ∈ looseAddresses base text, a + 4 ≤ m.size := by simp only [not_forall, not_le, exists_prop]
  have hwrapped : (∃ a ∈ looseAddresses base text, m.size < a % 2 ^ 32 + 4) ↔
      ¬ ∀ a ∈ looseAddresses base text, a % 2 ^ 32 + 4 ≤ m.size := by simp only [not_forall, not_le, exists_prop]
  -- 32 bits of an address inside memory are inside too
  have hsmaller : (∀ a ∈ looseAddresses base text, a + 4 ≤ m.size) →
      ∀ a ∈ looseAddresses base text, a % 2 ^ 32 + 4 ≤ m.size :=
    fun h a ha => (Nat.add_le_add_right (Nat.mod_le a _) 4).trans (h a ha)
  rw [acceptsGrammar_iff, houtside, hwrapped]
  by_cases hrefused : ∃ t ∈ fileTokens text, Refused t
  · obtain ⟨t, ht, h⟩ := hrefused
    exact iff_of_true (iff_of_false (not_accepted ht (.inr h)) (not_returns ht (.inr h))) (.inr (.inl ⟨t, ht, h⟩))
  rw [neither_iff]
  by_cases hlax : ∃ t ∈ fileTokens text, Lax t
  · obtain ⟨t, ht, h⟩ := id hlax
    rw [iff_false_left (not_accepted ht (.inl h))]
    by_cases hlong : ∃ t ∈ fileTokens text, Long t
    · obtain ⟨u, hu, hu'⟩ := id hlong
      exact iff_of_true (not_returns hu (.inl hu')) (.inr (.inr (.inl ⟨hlong, .inl hlax⟩)))
    · -- the loader reads every token, so it throws only where a word lies outside
      rw [returns_inside hlong hrefused]
      simp only [hlax, hlong, hrefused, not_true, false_and, false_or]
  · rw [accepted_inside hlax hrefused]
    by_cases hlong : ∃ t ∈ fileTokens text, Long t
    · -- every token is grammatical, so the grammar refuses only where a word lies outside
      obtain ⟨t, ht, h⟩ := id hlong
      rw [iff_false_right (not_returns ht (.inl h))]
      simp only [hlax, hlong, hrefused, not_true, and_false, false_and, false_or, true_and]
      exact ⟨.inl, fun hout => hout.elim id fun hout hin => hout (hsmaller hin)⟩
    · rw [returns_inside hlong hrefused]
      simp only [hlax, hlong, hrefused, not_false_iff, true_and, false_and, false_or]
      refine ⟨fun hiff => ?_, fun hout => ?_⟩
      · by_cases hin : ∀ a ∈ looseAddresses base text, a + 4 ≤ m.size
        · exact .inl hin
        · exact .inr fun h => hin (hiff.2 h)
      · rcases hout with hin | hout
        · exact iff_of_true hin (hsmaller hin)
        · exact iff_of_false (fun hin => hout (hsmaller hin)) hout

end

/-- a file of one token with a number in front of other characters is loaded -/
theorem accepts_trailing : ¬ AcceptsGrammar "program.hex" 0 ['1', '2', 'z', 'z'] (Memory.zeros 4) := by
  intro h
  obtain ⟨e, m', hthrow⟩ := h.throws fun hacc => by
    obtain ⟨item, hitem⟩ := hacc.tokens ['1', '2', 'z', 'z'] (by decide +kernel)
    have hnone : parseToken ['1', '2', 'z', 'z'] = none := by decide +kernel
    rw [hnone] at hitem
    cases hitem
  have hok : (loadHexWords "program.hex" (some ['1', '2', 'z', 'z']) 0 (Memory.zeros 4)).returned.isSome = true := by
    decide +kernel
  rw [hthrow] at hok
  cases hok

end HexLoader

end Rv32im
