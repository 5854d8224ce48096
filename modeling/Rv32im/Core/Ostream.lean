/-
Formatted output as a C++ stream makes it.

A number is written in the base that the flags name. Every insertion is filled on the left up to the width, and sets the
width back to zero; the base and the fill character stay until they are changed.

- `insert`, `insertNat`: texts and unsigned numbers. `dec`, `hex`, `setw`, `setfill`: manipulators.
- `insert_unpadded`: without a width, a text is appended as it is.
- `pad_toDigits`: a hexadecimal number that is filled with zeros.
-/
import Rv32im.Core.Text

inductive BaseField where
  | dec
  | hex
deriving DecidableEq, Repr

/-- what has been written, and the state of the formatting -/
structure Ostream where
  flags : BaseField := .dec
  fill : Char := ' '
  width : ℕ := 0
  text : List Char := []

namespace Ostream

open Text (decimal)

def insert (s : List Char) (out : Ostream) : Ostream :=
  { out with text := out.text ++ (List.replicate (out.width - s.length) out.fill ++ s), width := 0 }

def insertNat (n : ℕ) (out : Ostream) : Ostream :=
  match out.flags with
  | .dec => out.insert (Nat.toDigits 10 n)
  | .hex => out.insert (Nat.toDigits 16 n)

def dec (out : Ostream) : Ostream := { out with flags := .dec }

def hex (out : Ostream) : Ostream := { out with flags := .hex }

def setw (n : ℕ) (out : Ostream) : Ostream := { out with width := n }

def setfill (c : Char) (out : Ostream) : Ostream := { out with fill := c }

section

variable (flags : BaseField) (fill : Char) (text : List Char)

@[simp] theorem dec_mk (w : ℕ) : dec ⟨flags, fill, w, text⟩ = ⟨.dec, fill, w, text⟩ := rfl

@[simp] theorem hex_mk (w : ℕ) : hex ⟨flags, fill, w, text⟩ = ⟨.hex, fill, w, text⟩ := rfl

@[simp] theorem setw_mk (w n : ℕ) : setw n ⟨flags, fill, w, text⟩ = ⟨flags, fill, n, text⟩ := rfl

@[simp] theorem setfill_mk (w : ℕ) (c : Char) : setfill c ⟨flags, fill, w, text⟩ = ⟨flags, c, w, text⟩ := rfl

/-- without a width, a text is appended as it is -/
@[simp] theorem insert_unpadded (s : List Char) :
    insert s ⟨flags, fill, 0, text⟩ = ⟨flags, fill, 0, text ++ s⟩ := by
  simp [insert]

@[simp] theorem insertNat_dec (n : ℕ) :
    insertNat n ⟨.dec, fill, 0, text⟩ = ⟨.dec, fill, 0, text ++ decimal n⟩ := insert_unpadded _ _ _ _

end

/-! ## Hexadecimal numbers of a fixed width -/

theorem hex_zero (w : ℕ) : Text.hex w 0 = List.replicate w '0' := by
  induction w with
  | zero => rfl
  | succ w ih =>
    rw [Text.hex, Nat.zero_div, ih, List.replicate_succ']
    rfl

/-- **A number filled with zeros** is the number with its leading zeros, by induction on the digits. -/
theorem pad_toDigits {w n : ℕ} (hw : 0 < w) (hn : n < 16 ^ w) :
    List.replicate (w - (Nat.toDigits 16 n).length) '0' ++ Nat.toDigits 16 n = Text.hex w n := by
  induction w generalizing n with
  | zero => exact absurd hw (lt_irrefl 0)
  | succ w ih =>
    rw [Text.hex]
    by_cases hlt : n < 16
    · rw [Nat.toDigits_of_lt_base hlt, Nat.div_eq_of_lt hlt, Nat.mod_eq_of_lt hlt, hex_zero]
      rfl
    · have hpos : 0 < w := by
        rcases Nat.eq_zero_or_pos w with rfl | hpos
        · exact absurd hn (by simpa using hlt)
        · exact hpos
      have hdiv : n / 16 < 16 ^ w := by
        rw [Nat.div_lt_iff_lt_mul (by decide), ← pow_succ]
        exact hn
      rw [Nat.toDigits_of_base_le (by decide) (not_lt.1 hlt), ← ih hpos hdiv, List.length_append, List.length_singleton,
        Nat.add_sub_add_right, List.append_assoc]

/-- a number filled with zeros up to w digits -/
theorem insertNat_hex {w n : ℕ} (hw : 0 < w) (hn : n < 16 ^ w) (text : List Char) :
    insertNat n ⟨.hex, '0', w, text⟩ = ⟨.hex, '0', 0, text ++ Text.hex w n⟩ := by
  rw [← pad_toDigits hw hn]
  rfl

end Ostream
