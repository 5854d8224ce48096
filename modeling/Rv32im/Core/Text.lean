/-
Text as Python's `str` handles it, restricted to ASCII: a text is the list of its characters.

- `strip`, `splitLines`, `before`, `behind`: white space at the ends, lines, the two halves around a character.
- `searchInt`: the first match of `-?\d+`, as an integer. `readInt`: `int(s, base)`.
- `decimal`, `hex`: numbers as `std::dec` and as a zero-filled `std::hex` write them.
- `splitLines_unlines`: joined lines are split where they were joined.
- `searchInt_decimal`, `readInt_decimal`, `readInt_hex`: written numbers are read back, so writing is injective.
- `Numeral`: what every reader needs of a written number.
-/
import Mathlib.Data.List.Basic
import Mathlib.Data.List.DropRight
import Mathlib.Tactic.SplitIfs
import Mathlib.Tactic.Ring

namespace Text

/-! ## Lines and white space -/

/-- the characters that `str.strip` removes: tab to carriage return, and file separator to blank -/
def isSpace (c : Char) : Bool := (9 ≤ c.toNat && c.toNat ≤ 13) || (28 ≤ c.toNat && c.toNat ≤ 32)

/-- the characters at which `str.splitlines` ends a line: line feed to carriage return, and file to record separator -/
def isLineEnd (c : Char) : Bool := (10 ≤ c.toNat && c.toNat ≤ 13) || (28 ≤ c.toNat && c.toNat ≤ 30)

def strip (s : List Char) : List Char := (s.dropWhile isSpace).rdropWhile isSpace

/-- `str.splitlines` behind the characters `line` of an open line; `\r\n` ends one line -/
def splitFrom (line : List Char) : List Char → List (List Char)
  | [] => if line = [] then [] else [line]
  | '\r' :: '\n' :: s => line :: splitFrom [] s
  | c :: s => if isLineEnd c then line :: splitFrom [] s else splitFrom (line ++ [c]) s

def splitLines (s : List Char) : List (List Char) := splitFrom [] s

/-- the part before the first `c`, and the part behind it -/
def before (c : Char) (s : List Char) : List Char := s.takeWhile fun x => x ≠ c

def behind (c : Char) (s : List Char) : List Char := (s.dropWhile fun x => x ≠ c).tail

/-- lines, each with its line feed -/
def unlines (l : List (List Char)) : List Char := l.flatMap fun line => line ++ ['\n']

theorem splitFrom_char {c : Char} (h : isLineEnd c = false) (line s : List Char) :
    splitFrom line (c :: s) = splitFrom (line ++ [c]) s := by
  have hr : c ≠ '\r' := by
    rintro rfl
    cases h
  rw [splitFrom, h]
  · rfl
  · intro t hc _
    exact hr hc

theorem splitFrom_append {l : List Char} (h : ∀ c ∈ l, isLineEnd c = false) (line s : List Char) :
    splitFrom line (l ++ s) = splitFrom (line ++ l) s := by
  induction l generalizing line with
  | nil => rw [List.nil_append, List.append_nil]
  | cons c l ih =>
    rw [List.cons_append, splitFrom_char (h c List.mem_cons_self),
      ih (fun d hd => h d (List.mem_cons_of_mem c hd)), List.append_assoc, List.singleton_append]

/-- **Joined lines are split where they were joined.** -/
theorem splitLines_unlines {l : List (List Char)} (h : ∀ line ∈ l, ∀ c ∈ line, isLineEnd c = false) :
    splitLines (unlines l) = l := by
  induction l with
  | nil => rfl
  | cons line l ih =>
    have hsplit : splitLines (line ++ '\n' :: unlines l) = line :: splitLines (unlines l) := by
      unfold splitLines
      rw [splitFrom_append (h line List.mem_cons_self)]
      rfl
    have hcons : unlines (line :: l) = line ++ '\n' :: unlines l := by
      simp [unlines]
    rw [hcons, hsplit, ih fun m hm => h m (List.mem_cons_of_mem line hm)]

/-- the first `c` of a text is the first `c` of its beginning, if there is one -/
theorem before_append {c : Char} {l : List Char} (h : c ∈ l) (s : List Char) : before c (l ++ s) = before c l := by
  unfold before
  rw [List.takeWhile_append, if_neg]
  intro hall
  have hlen : (l.takeWhile fun x => decide (x ≠ c)).length = l.length := hall
  have hsame : (l.takeWhile fun x => decide (x ≠ c)) = l :=
    (List.takeWhile_prefix _).eq_of_length hlen
  rw [List.takeWhile_eq_self_iff] at hsame
  simpa using hsame c h

theorem behind_append {c : Char} {l : List Char} (h : c ∈ l) (s : List Char) :
    behind c (l ++ s) = behind c l ++ s := by
  have hne : (l.dropWhile fun x => decide (x ≠ c)) ≠ [] := by
    intro hnil
    rw [List.dropWhile_eq_nil_iff] at hnil
    simpa using hnil c h
  unfold behind
  rw [List.dropWhile_append, if_neg (by simpa using hne), List.tail_append_of_ne_nil hne]

/-! ## Reading integers -/

/-- the number of a run of decimal digits -/
def number (s : List Char) : ℕ := Nat.ofDigitChars 10 (s.takeWhile Char.isDigit) 0

/-- the first match of `-?\d+` -/
def searchInt : List Char → Option ℤ
  | [] => none
  | c :: s =>
    if c.isDigit then some (number (c :: s))
    else if c = '-' ∧ s.head?.any Char.isDigit = true then some (-(number s : ℤ))
    else searchInt s

/-- the white space that `int` skips: tab to carriage return, and the blank -/
def isBlank (c : Char) : Bool := (9 ≤ c.toNat && c.toNat ≤ 13) || c = ' '

def digitValue (c : Char) : Option ℕ :=
  if c.isDigit then some (c.toNat - 48)
  else if c.isLower then some (c.toNat - 87)
  else if c.isUpper then some (c.toNat - 55)
  else none

/-- the value of digits behind `acc`; an underscore stands between two digits only -/
def readDigits (base : ℕ) : ℕ → Bool → List Char → Option ℕ
  | acc, closed, [] => if closed then none else some acc
  | acc, closed, c :: s =>
    if c = '_' then (if closed then none else readDigits base acc true s)
    else
      match digitValue c with
      | some d => if d < base then readDigits base (base * acc + d) false s else none
      | none => none

/-- digits behind a base prefix, where one underscore may stand -/
def readPrefixed (base : ℕ) (s : List Char) : Option ℕ :=
  match s with
  | '_' :: s => readDigits base 0 true s
  | s => readDigits base 0 true s

/-- an unsigned literal: base 0 takes the base from the prefix and refuses leading zeros of a nonzero number -/
def readNat (base : ℕ) (s : List Char) : Option ℕ :=
  match s with
  | '0' :: c :: t =>
    if (base = 0 ∨ base = 16) ∧ (c = 'x' ∨ c = 'X') then readPrefixed 16 t
    else if (base = 0 ∨ base = 8) ∧ (c = 'o' ∨ c = 'O') then readPrefixed 8 t
    else if (base = 0 ∨ base = 2) ∧ (c = 'b' ∨ c = 'B') then readPrefixed 2 t
    else if base = 0 then (readDigits 10 0 true s).filter fun v => v = 0
    else readDigits base 0 true s
  | s => readDigits (if base = 0 then 10 else base) 0 true s

/-- `int(s, base)`; `none` is a `ValueError` -/
def readInt (base : ℕ) (s : List Char) : Option ℤ :=
  match (s.dropWhile isBlank).rdropWhile isBlank with
  | '-' :: t => (readNat base t).map fun n : ℕ => -(n : ℤ)
  | '+' :: t => (readNat base t).map fun n : ℕ => (n : ℤ)
  | t => (readNat base t).map fun n : ℕ => (n : ℤ)

/-! ## Written numbers -/

def decimal (n : ℕ) : List Char := Nat.toDigits 10 n

/-- the last `w` hexadecimal digits -/
def hex : ℕ → ℕ → List Char
  | 0, _ => []
  | w + 1, n => hex w (n / 16) ++ [Nat.digitChar (n % 16)]

theorem isDigit_decimal {n : ℕ} {c : Char} (h : c ∈ decimal n) : c.isDigit = true :=
  Nat.isDigit_of_mem_toDigits (by decide) (by decide) h

theorem decimal_ne_nil (n : ℕ) : decimal n ≠ [] := Nat.toDigits_ne_nil

/-- **The first integer** behind a text without digits and signs is the number that stands there. -/
theorem searchInt_decimal {l : List Char} (hl : ∀ c ∈ l, c.isDigit = false ∧ c ≠ '-') (n : ℕ) {s : List Char}
    (hs : ∀ c ∈ s.head?, c.isDigit = false) : searchInt (l ++ (decimal n ++ s)) = some (n : ℤ) := by
  induction l with
  | nil =>
    have htake : (decimal n ++ s).takeWhile Char.isDigit = decimal n := by
      have hall : (decimal n).takeWhile Char.isDigit = decimal n :=
        List.takeWhile_eq_self_iff.2 fun c hc => isDigit_decimal hc
      have hnone : s.takeWhile Char.isDigit = [] := by
        cases s with
        | nil => rfl
        | cons c s => exact List.takeWhile_cons_of_neg (by simp [hs c rfl])
      rw [List.takeWhile_append, hall, if_pos rfl, hnone, List.append_nil]
    have hnumber : number (decimal n ++ s) = n := by
      unfold number
      rw [htake]
      exact Nat.ofDigitChars_ten_toDigits
    rw [List.nil_append]
    cases hd : decimal n with
    | nil => exact absurd hd (decimal_ne_nil n)
    | cons c t =>
      have hc : c.isDigit = true := isDigit_decimal (n := n) (by rw [hd]; exact List.mem_cons_self)
      rw [hd] at hnumber
      rw [List.cons_append] at hnumber ⊢
      rw [searchInt, if_pos hc, hnumber]
  | cons c l ih =>
    obtain ⟨hc, hm⟩ := hl c List.mem_cons_self
    rw [List.cons_append, searchInt, if_neg (by simp [hc]), if_neg fun h => hm h.1]
    exact ih fun d hd => hl d (List.mem_cons_of_mem c hd)

/-- digits without underscores, one by one -/
theorem readDigits_decimal {l : List Char} (h : ∀ c ∈ l, c.isDigit = true) (acc : ℕ) :
    readDigits 10 acc false l = some (Nat.ofDigitChars 10 l acc) := by
  induction l generalizing acc with
  | nil => rfl
  | cons c l ih =>
    have hc := h c List.mem_cons_self
    have hu : c ≠ '_' := by
      rintro rfl
      cases hc
    have hlt : c.toNat - 48 < 10 := by
      have hrange := Char.isDigit_iff_toNat.1 hc
      have hnine : '9'.toNat = 57 := rfl
      omega
    have hvalue : digitValue c = some (c.toNat - 48) := if_pos hc
    rw [readDigits, if_neg hu, hvalue]
    simp only [if_pos hlt]
    rw [ih fun d hd => h d (List.mem_cons_of_mem c hd), Nat.ofDigitChars_cons]
    rfl

theorem readDigits_closed {c : Char} (hc : c ≠ '_') (base acc : ℕ) (closed : Bool) (s : List Char) :
    readDigits base acc closed (c :: s) = readDigits base acc false (c :: s) := by
  rw [readDigits, readDigits, if_neg hc, if_neg hc]

theorem hexDigit_facts : ∀ d < 16, digitValue (Nat.digitChar d) = some d ∧ Nat.digitChar d ≠ '_' ∧
    isSpace (Nat.digitChar d) = false ∧ isBlank (Nat.digitChar d) = false ∧
    (Nat.digitChar d).toLower = Nat.digitChar d := by decide

theorem mem_hex {w n : ℕ} {c : Char} (h : c ∈ hex w n) : ∃ d < 16, c = Nat.digitChar d := by
  induction w generalizing n with
  | zero => cases h
  | succ w ih =>
    rcases List.mem_append.1 h with h | h
    · exact ih h
    · exact ⟨n % 16, Nat.mod_lt n (by decide), List.mem_singleton.1 h⟩

theorem mem_decimal {n : ℕ} {c : Char} (h : c ∈ decimal n) : ∃ d < 16, c = Nat.digitChar d := by
  induction n using Nat.strong_induction_on with
  | _ n ih =>
    unfold decimal at h
    by_cases hlt : n < 10
    · rw [Nat.toDigits_of_lt_base hlt, List.mem_singleton] at h
      exact ⟨n, by omega, h⟩
    · rw [Nat.toDigits_of_base_le (by decide) (by omega)] at h
      rcases List.mem_append.1 h with h | h
      · exact ih (n / 10) (by omega) h
      · exact ⟨n % 10, by omega, List.mem_singleton.1 h⟩

/-- the number of w digits -/
theorem readDigits_hex (w n acc : ℕ) (closed : Bool) (s : List Char) :
    readDigits 16 acc closed (hex w n ++ s) =
      readDigits 16 (16 ^ w * acc + n % 16 ^ w) (closed && decide (w = 0)) s := by
  induction w generalizing n s with
  | zero => simp [hex, Nat.mod_one]
  | succ w ih =>
    obtain ⟨hvalue, hu, -, -, -⟩ := hexDigit_facts (n % 16) (Nat.mod_lt n (by decide))
    have hsum : 16 * (16 ^ w * acc + n / 16 % 16 ^ w) + n % 16 = 16 ^ (w + 1) * acc + n % 16 ^ (w + 1) := by
      rw [pow_succ', Nat.mod_mul]
      ring
    rw [hex, List.append_assoc, List.singleton_append, ih, readDigits, if_neg hu, hvalue]
    simp only [if_pos (Nat.mod_lt n (by decide : 0 < 16)), hsum]
    simp

theorem trim_eq {p : Char → Bool} {l : List Char} (h : ∀ c ∈ l, p c = false) :
    (l.dropWhile p).rdropWhile p = l := by
  have hdrop : l.dropWhile p = l := by
    cases l with
    | nil => rfl
    | cons c l => exact List.dropWhile_cons_of_neg (by simp [h c List.mem_cons_self])
  rw [hdrop, List.rdropWhile_eq_self_iff]
  intro hne
  simp [h (l.getLast hne) (List.getLast_mem hne)]

/-- the first digit of a nonzero number is not zero -/
theorem decimal_head {n : ℕ} (hn : n ≠ 0) {c : Char} {s : List Char} (h : decimal n = c :: s) : c ≠ '0' := by
  induction n using Nat.strong_induction_on generalizing c s with
  | _ n ih =>
    unfold decimal at h
    by_cases hlt : n < 10
    · rw [Nat.toDigits_of_lt_base hlt, List.cons.injEq] at h
      rw [← h.1, ne_eq, Nat.digitChar_eq_zero]
      exact hn
    · rw [Nat.toDigits_of_base_le (by decide) (by omega)] at h
      cases hd : Nat.toDigits 10 (n / 10) with
      | nil => exact absurd hd Nat.toDigits_ne_nil
      | cons d t =>
        rw [hd, List.cons_append, List.cons.injEq] at h
        rw [← h.1]
        exact ih (n / 10) (by omega) (by omega) hd

/-- **A decimal number is read back.** -/
theorem readInt_decimal (n : ℕ) : readInt 0 (decimal n) = some (n : ℤ) := by
  rcases eq_or_ne n 0 with rfl | hn
  · rfl
  cases hd : decimal n with
  | nil => exact absurd hd (decimal_ne_nil n)
  | cons c t =>
    have hdigits : ∀ x ∈ c :: t, x.isDigit = true := fun x hx => isDigit_decimal (hd ▸ hx)
    have hblank : ∀ x ∈ c :: t, isBlank x = false := by
      intro x hx
      obtain ⟨d, hlt, rfl⟩ := mem_decimal (hd ▸ hx)
      exact (hexDigit_facts d hlt).2.2.2.1
    have hzero := decimal_head hn hd
    have hc := hdigits c List.mem_cons_self
    have hu : c ≠ '_' := by
      rintro rfl
      cases hc
    have hminus : c ≠ '-' := by
      rintro rfl
      cases hc
    have hplus : c ≠ '+' := by
      rintro rfl
      cases hc
    have hnat : readNat 0 (c :: t) = some n := by
      have hvalue : readDigits 10 0 true (c :: t) = some n := by
        rw [readDigits_closed hu, readDigits_decimal hdigits, ← hd]
        exact congrArg some Nat.ofDigitChars_ten_toDigits
      unfold readNat
      split
      · rename_i heq
        exact absurd (List.cons.inj heq).1 hzero
      · exact hvalue
    unfold readInt
    rw [trim_eq hblank]
    split
    · rename_i heq
      exact absurd (List.cons.inj heq).1 hminus
    · rename_i heq
      exact absurd (List.cons.inj heq).1 hplus
    · rw [hnat]
      rfl

/-- **A prefixed hexadecimal number is read back.** -/
theorem readInt_hex {w n : ℕ} (hw : 0 < w) (hn : n < 16 ^ w) : readInt 0 ('0' :: 'x' :: hex w n) = some (n : ℤ) := by
  have hblank : ∀ x ∈ '0' :: 'x' :: hex w n, isBlank x = false := by
    intro x hx
    rcases List.mem_cons.1 hx with rfl | hx
    · rfl
    rcases List.mem_cons.1 hx with rfl | hx
    · rfl
    obtain ⟨d, hlt, rfl⟩ := mem_hex hx
    exact (hexDigit_facts d hlt).2.2.2.1
  have hvalue : readDigits 16 0 true (hex w n) = some n := by
    have hread := readDigits_hex w n 0 true []
    rw [List.append_nil, Nat.mul_zero, Nat.zero_add, Nat.mod_eq_of_lt hn, decide_eq_false (by omega)] at hread
    exact hread
  have hprefixed : readPrefixed 16 (hex w n) = some n := by
    unfold readPrefixed
    split
    · rename_i s heq
      obtain ⟨d, hlt, hchar⟩ := mem_hex (w := w) (n := n) (c := '_') (by rw [heq]; exact List.mem_cons_self)
      exact absurd hchar.symm (hexDigit_facts d hlt).2.1
    · exact hvalue
  unfold readInt
  rw [trim_eq hblank]
  show (readNat 0 ('0' :: 'x' :: hex w n)).map _ = _
  have hnat : readNat 0 ('0' :: 'x' :: hex w n) = some n := by
    unfold readNat
    simp only [true_or, and_self, if_true]
    exact hprefixed
  rw [hnat]
  rfl

/-- a number without white space and upper case letters, as `int` reads it with base 0 -/
structure Numeral (s : List Char) (n : ℕ) : Prop where
  strip : strip s = s
  lower : s.map Char.toLower = s
  value : readInt 0 s = some (n : ℤ)

theorem Numeral.eq {s : List Char} {n m : ℕ} (h : Numeral s n) (h' : Numeral s m) : n = m := by
  have hvalue := h.value
  rw [h'.value, Option.some.injEq, Nat.cast_inj] at hvalue
  exact hvalue.symm

theorem lower_digits {l : List Char} (h : ∀ c ∈ l, ∃ d < 16, c = Nat.digitChar d) : l.map Char.toLower = l := by
  refine (List.map_congr_left fun c hc => ?_).trans (List.map_id l)
  obtain ⟨d, hlt, rfl⟩ := h c hc
  exact (hexDigit_facts d hlt).2.2.2.2

theorem isSpace_digits {l : List Char} (h : ∀ c ∈ l, ∃ d < 16, c = Nat.digitChar d) : ∀ c ∈ l, isSpace c = false := by
  intro c hc
  obtain ⟨d, hlt, rfl⟩ := h c hc
  exact (hexDigit_facts d hlt).2.2.1

theorem numeral_decimal (n : ℕ) : Numeral (decimal n) n :=
  ⟨trim_eq (isSpace_digits fun _ => mem_decimal), lower_digits fun _ => mem_decimal, readInt_decimal n⟩

theorem numeral_hex {w n : ℕ} (hw : 0 < w) (hn : n < 16 ^ w) : Numeral ('0' :: 'x' :: hex w n) n := by
  have hdigits := isSpace_digits (l := hex w n) fun _ => mem_hex
  have hspace : ∀ c ∈ '0' :: 'x' :: hex w n, isSpace c = false := by
    intro c hc
    rcases List.mem_cons.1 hc with rfl | hc
    · rfl
    rcases List.mem_cons.1 hc with rfl | hc
    · rfl
    exact hdigits c hc
  have hlower : ('0' :: 'x' :: hex w n).map Char.toLower = '0' :: 'x' :: hex w n := by
    rw [List.map_cons, List.map_cons, lower_digits fun _ => mem_hex]
    rfl
  exact ⟨trim_eq hspace, hlower, readInt_hex hw hn⟩

end Text
