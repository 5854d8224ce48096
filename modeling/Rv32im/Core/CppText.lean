/-
Text as the C++ library reads it: a text is the list of its bytes, one character for each.

- `getlines`: what `std::getline` delivers until the stream ends; `getlinesAt` with a delimiter of its own. `words`: what
  `>>` delivers.
- `find`: `std::string::find`.
- `stoul`: `std::stoul(s, nullptr, 16)` for a 64-bit `unsigned long`: white space, a sign and a prefix are skipped, the
  longest run of digits is converted, and whatever follows it is ignored.
- `stoull`: `std::stoull(s, &used, 0)`, where a prefix chooses the base.
- `getlines_append`, `words_append`, `words_word`: lines and words of a text, from those of its parts. `getlines_unlines`,
  `getlinesAt_intercalate`: written lines and joined fields are read back.
- `stoul_digits`, `stoul_prefixed`: the value of a number that is nothing but digits. `stoull_decimal`: a written number.
-/
import Rv32im.Core.Text

namespace CppText

open Text

/-! ## Lines and words -/

/-- an empty line behind the last line feed is not delivered -/
def getlines (s : List Char) : List (List Char) :=
  let lines := s.splitOn '\n'
  if lines.getLast? = some [] then lines.dropLast else lines

def words (s : List Char) : List (List Char) := (s.splitOnP isBlank).filter fun w => w ≠ []

/-- the first position of `needle`; `none` is `npos` -/
def find (needle : List Char) : List Char → Option ℕ
  | [] => if needle = [] then some 0 else none
  | c :: s => if needle.isPrefixOf (c :: s) then some 0 else (find needle s).map (· + 1)

/-- the same with another delimiter -/
def getlinesAt (delim : Char) (s : List Char) : List (List Char) :=
  let lines := s.splitOn delim
  if lines.getLast? = some [] then lines.dropLast else lines

/-- joined parts are delivered, unless the last one is empty -/
theorem getlinesAt_intercalate {delim : Char} {l : List (List Char)} (h : ∀ part ∈ l, delim ∉ part) (hne : l ≠ [])
    (hlast : l.getLast? ≠ some []) : getlinesAt delim (List.intercalate [delim] l) = l := by
  unfold getlinesAt
  rw [List.splitOn_intercalate delim h hne]
  exact if_neg hlast

theorem getlines_line {l : List Char} (h : '\n' ∉ l) (hne : l ≠ []) : getlines l = [l] := by
  have hline := getlinesAt_intercalate (l := [l]) (List.forall_mem_singleton.2 h) (List.cons_ne_nil _ _)
    (by simpa using hne)
  rwa [List.intercalate_singleton] at hline

theorem getlines_append {l : List Char} (h : '\n' ∉ l) (s : List Char) :
    getlines (l ++ '\n' :: s) = l :: getlines s := by
  unfold getlines
  rw [List.splitOn_append_cons_self_of_not_mem h]
  cases hs : s.splitOn '\n' with
  | nil => exact absurd hs (List.splitOn_ne_nil _ _)
  | cons line lines =>
    show (if (line :: lines).getLast? = some [] then l :: (line :: lines).dropLast else l :: line :: lines) = _
    exact (apply_ite (l :: ·) _ _ _).symm

/-- the lines of a text that ends with a line feed -/
theorem getlines_unlines {l : List (List Char)} (h : ∀ line ∈ l, '\n' ∉ line) : getlines (unlines l) = l := by
  induction l with
  | nil => rfl
  | cons line l ih =>
    have hcons : unlines (line :: l) = line ++ '\n' :: unlines l := by
      simp [unlines]
    rw [hcons, getlines_append (h line List.mem_cons_self), ih fun m hm => h m (List.mem_cons_of_mem line hm)]

theorem words_append (s t : List Char) {c : Char} (hc : isBlank c = true) :
    words (s ++ c :: t) = words s ++ words t := by
  unfold words
  rw [List.splitOnP_append_cons s t hc, List.filter_append]

theorem words_word {w : List Char} (h : ∀ c ∈ w, isBlank c = false) (hne : w ≠ []) : words w = [w] := by
  unfold words
  rw [List.splitOnP_eq_singleton h]
  simp [hne]

/-- white space in front of a text delivers nothing -/
theorem words_blanks {l : List Char} (h : ∀ c ∈ l, isBlank c = true) (s : List Char) : words (l ++ s) = words s := by
  induction l with
  | nil => rfl
  | cons c l ih =>
    have hskip := words_append [] (l ++ s) (h c List.mem_cons_self)
    rw [List.nil_append] at hskip
    rw [List.cons_append, hskip, ih fun d hd => h d (List.mem_cons_of_mem c hd)]
    rfl

/-! ## Hexadecimal numbers -/

/-- the value of a hexadecimal digit of either case -/
def hexDigit (c : Char) : Option ℕ := (digitValue c).filter fun d => d < 16

def isHex (c : Char) : Bool := (hexDigit c).isSome

/-- the value of digits behind `acc` -/
def hexFrom (acc : ℕ) (s : List Char) : ℕ := s.foldl (fun acc c => 16 * acc + (hexDigit c).getD 0) acc

def hexValue (s : List Char) : ℕ := hexFrom 0 s

/-- `std::invalid_argument` or `std::out_of_range` -/
inductive StoulError where
  | invalidArgument
  | outOfRange
deriving DecidableEq, Repr

/-- the sign, and what is behind it -/
def sign (s : List Char) : Bool × List Char :=
  match s with
  | '-' :: t => (true, t)
  | '+' :: t => (false, t)
  | t => (false, t)

/-- a prefix counts only in front of a digit -/
def skipPrefix (s : List Char) : List Char :=
  match s with
  | '0' :: x :: d :: t => if (x = 'x' ∨ x = 'X') ∧ isHex d = true then d :: t else s
  | t => t

/-- a negative number is taken modulo 2^64 -/
def stoul (s : List Char) : Except StoulError ℕ :=
  let (negative, t) := sign (s.dropWhile isBlank)
  let digits := (skipPrefix t).takeWhile isHex
  if digits = [] then .error .invalidArgument
  else if 2 ^ 64 ≤ hexValue digits then .error .outOfRange
  else .ok (if negative then (2 ^ 64 - hexValue digits) % 2 ^ 64 else hexValue digits)

/-- a digit is none of the other characters -/
theorem isHex_ne {c d : Char} (hc : isHex c = true) (hd : isHex d = false) : c ≠ d := by
  rintro rfl
  rw [hc] at hd
  cases hd

/-- the digits are ASCII characters -/
theorem toNat_lt_of_isHex {c : Char} (h : isHex c = true) : c.toNat < 128 := by
  by_contra hge
  have habove : ∀ {hi : UInt32}, hi.toNat < 128 → ¬ c.val ≤ hi :=
    fun hhi hle => hge ((UInt32.le_iff_toNat_le.1 hle).trans_lt hhi)
  have hdigit : c.isDigit = false := by simp [Char.isDigit, habove]
  have hlower : c.isLower = false := Bool.eq_false_iff.2 fun hc =>
    habove (by decide) (of_decide_eq_true (Bool.and_eq_true_iff.1 hc).2)
  have hupper : c.isUpper = false := decide_eq_false fun hc => habove (by decide) hc.2
  simp [isHex, hexDigit, digitValue, hdigit, hlower, hupper] at h

theorem isBlank_of_isHex {c : Char} (h : isHex c = true) : isBlank c = false := by
  have hall : ∀ n < 128, isHex (Char.ofNat n) = true → isBlank (Char.ofNat n) = false := by decide
  have hc := hall c.toNat (toNat_lt_of_isHex h)
  rw [Char.ofNat_toNat] at hc
  exact hc h

theorem hexFrom_lt (s : List Char) (acc : ℕ) : hexFrom acc s < (acc + 1) * 16 ^ s.length := by
  induction s generalizing acc with
  | nil => simp [hexFrom]
  | cons c s ih =>
    have hdigit : (hexDigit c).getD 0 < 16 := by
      cases hd : hexDigit c with
      | none => decide
      | some d =>
        obtain ⟨-, hlt⟩ := Option.filter_eq_some_iff.1 hd
        exact of_decide_eq_true hlt
    calc hexFrom acc (c :: s) = hexFrom (16 * acc + (hexDigit c).getD 0) s := rfl
      _ < (16 * acc + (hexDigit c).getD 0 + 1) * 16 ^ s.length := ih _
      _ ≤ (16 * (acc + 1)) * 16 ^ s.length := Nat.mul_le_mul_right _ (by omega)
      _ = (acc + 1) * 16 ^ (c :: s).length := by rw [List.length_cons, pow_succ]; ring

/-- a text that starts with a digit has no white space in front and no sign -/
theorem sign_digit {c : Char} (hc : isHex c = true) (s : List Char) :
    sign ((c :: s).dropWhile isBlank) = (false, c :: s) := by
  rw [List.dropWhile_cons_of_neg (by simp [isBlank_of_isHex hc])]
  unfold sign
  split
  · rename_i heq
    exact absurd (List.cons.inj heq).1 (isHex_ne hc rfl)
  · rename_i heq
    exact absurd (List.cons.inj heq).1 (isHex_ne hc rfl)
  · rfl

theorem skipPrefix_digits {s : List Char} (h : ∀ c ∈ s, isHex c = true) : skipPrefix s = s := by
  unfold skipPrefix
  split
  · rename_i x d t
    have hx := h x (by simp)
    exact if_neg fun hc => hc.1.elim (isHex_ne hx rfl) (isHex_ne hx rfl)
  · rfl

/-- digits alone are converted as they stand -/
theorem stoul_digits {s : List Char} (h : ∀ c ∈ s, isHex c = true) (hne : s ≠ []) :
    stoul s = if 2 ^ 64 ≤ hexValue s then .error .outOfRange else .ok (hexValue s) := by
  obtain ⟨c, t, rfl⟩ := List.exists_cons_of_ne_nil hne
  have htake : (c :: t).takeWhile isHex = c :: t := List.takeWhile_eq_self_iff.2 h
  unfold stoul
  rw [sign_digit (h c List.mem_cons_self)]
  simp only [skipPrefix_digits h, htake, if_neg hne]
  rfl

/-- digits behind a prefix are converted as they stand -/
theorem stoul_prefixed {s : List Char} (h : ∀ c ∈ s, isHex c = true) (hne : s ≠ []) {x : Char}
    (hx : x = 'x' ∨ x = 'X') : stoul ('0' :: x :: s) = stoul s := by
  obtain ⟨d, t, rfl⟩ := List.exists_cons_of_ne_nil hne
  have hd := h d List.mem_cons_self
  have hskip : skipPrefix ('0' :: x :: d :: t) = d :: t := if_pos ⟨hx, hd⟩
  unfold stoul
  rw [sign_digit hd, sign_digit (rfl : isHex '0' = true)]
  simp only [hskip, skipPrefix_digits h]

/-! ## Numbers of any base -/

def digitOf (base : ℕ) (c : Char) : Option ℕ := (digitValue c).filter fun d => d < base

def valueOf (base : ℕ) (s : List Char) : ℕ := s.foldl (fun acc c => base * acc + (digitOf base c).getD 0) 0

/-- the base that a prefix chooses, and what is behind the prefix; the zero of an octal number is a digit -/
def chooseBase (s : List Char) : ℕ × List Char :=
  match s with
  | '0' :: x :: d :: t => if (x = 'x' ∨ x = 'X') ∧ isHex d = true then (16, d :: t) else (8, s)
  | '0' :: _ => (8, s)
  | t => (10, t)

/-- the value, and the position behind the last digit; a negative number is taken modulo 2^64 -/
def stoull (s : List Char) : Except StoulError (ℕ × ℕ) :=
  let (negative, t) := sign (s.dropWhile isBlank)
  let (base, t) := chooseBase t
  let digits := t.takeWhile fun c => (digitOf base c).isSome
  let value := valueOf base digits
  if digits = [] then .error .invalidArgument
  else if 2 ^ 64 ≤ value then .error .outOfRange
  else .ok (if negative then (2 ^ 64 - value) % 2 ^ 64 else value, s.length - (t.length - digits.length))

theorem digitOf_ten {c : Char} (h : c.isDigit = true) : digitOf 10 c = some (c.toNat - 48) := by
  have hvalue : digitValue c = some (c.toNat - 48) := if_pos h
  have hlt : c.toNat - 48 < 10 := by
    have hrange := Char.isDigit_iff_toNat.1 h
    have hnine : '9'.toNat = 57 := rfl
    omega
  rw [digitOf, hvalue, Option.filter_some, if_pos (decide_eq_true hlt)]

theorem valueOf_ten {s : List Char} (h : ∀ c ∈ s, c.isDigit = true) : valueOf 10 s = Nat.ofDigitChars 10 s 0 := by
  refine List.foldl_ext _ _ 0 fun acc c hc => ?_
  rw [digitOf_ten (h c hc)]
  rfl

/-- **A written number is read to its end**, if it fits 64 bits. -/
theorem stoull_decimal {n : ℕ} (hn : n < 2 ^ 64) : stoull (decimal n) = .ok (n, (decimal n).length) := by
  have hdigits : ∀ c ∈ decimal n, c.isDigit = true := fun c => isDigit_decimal
  have hhex : ∀ c ∈ decimal n, isHex c = true := by
    intro c hc
    obtain ⟨d, hlt, rfl⟩ := mem_decimal hc
    rw [isHex, hexDigit, (hexDigit_facts d hlt).1, Option.filter_some, if_pos (decide_eq_true hlt)]
    rfl
  rcases eq_or_ne n 0 with rfl | hzero
  · rfl
  obtain ⟨c, s, hs⟩ := List.exists_cons_of_ne_nil (decimal_ne_nil n)
  have hhead := decimal_head hzero hs
  have hsign : sign ((decimal n).dropWhile isBlank) = (false, decimal n) := by
    rw [hs]
    exact sign_digit (hhex c (hs ▸ List.mem_cons_self)) s
  have hbase : chooseBase (decimal n) = (10, decimal n) := by
    rw [hs]
    unfold chooseBase
    split
    · rename_i heq
      exact absurd (List.cons.inj heq).1 hhead
    · rename_i heq
      exact absurd (List.cons.inj heq).1 hhead
    · rfl
  have htake : (decimal n).takeWhile (fun c => (digitOf 10 c).isSome) = decimal n :=
    List.takeWhile_eq_self_iff.2 fun c hc => by rw [digitOf_ten (hdigits c hc)]; rfl
  have hvalue : valueOf 10 (decimal n) = n := (valueOf_ten hdigits).trans Nat.ofDigitChars_ten_toDigits
  unfold stoull
  simp only [hsign, hbase, htake, hvalue, if_neg (decimal_ne_nil n), if_neg (not_le.2 hn), Nat.sub_self, Nat.sub_zero,
    Bool.false_eq_true, if_false]

end CppText
