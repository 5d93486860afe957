import Mathlib.Data.Nat.Digits.Lemmas
import Mathlib.Data.UInt

/-!
Natural numbers in decimal, as texts of code units, and the number a text of digits names.
-/

namespace Decimals

def isDigit (c : UInt16) : Bool := 48 ≤ c && c ≤ 57

def digitOf (d : Nat) : UInt16 := (48 + d).toUInt16

def valueOf (c : UInt16) : Nat := c.toNat - 48

/-- The decimal text of a number. -/
def print (n : Nat) : List UInt16 :=
  if n = 0 then [48] else ((Nat.digits 10 n).map digitOf).reverse

/-- The number of a text that is one or more digits. -/
def read (text : List UInt16) : Option Nat :=
  if text ≠ [] ∧ text.all isDigit then some (Nat.ofDigits 10 (text.reverse.map valueOf)) else none

theorem toNat_digitOf {d : Nat} (h : d < 10) : (digitOf d).toNat = 48 + d := by
  have hsmall : 48 + d < 2 ^ 16 := by omega
  simpa [digitOf] using Nat.mod_eq_of_lt hsmall

theorem isDigit_digitOf {d : Nat} (h : d < 10) : isDigit (digitOf d) = true := by
  have hlow : (48 : UInt16) ≤ digitOf d := by
    rw [UInt16.le_iff_toNat_le, toNat_digitOf h]
    exact Nat.le_add_right 48 d
  have hhigh : digitOf d ≤ 57 := by
    rw [UInt16.le_iff_toNat_le, toNat_digitOf h]
    show 48 + d ≤ 57
    omega
  simp [isDigit, hlow, hhigh]

theorem valueOf_digitOf {d : Nat} (h : d < 10) : valueOf (digitOf d) = d := by
  rw [valueOf, toNat_digitOf h]
  omega

theorem print_ne_nil (n : Nat) : print n ≠ [] := by
  unfold print
  split
  · exact List.cons_ne_nil _ _
  · next hn =>
    intro hnil
    have hdigits : Nat.digits 10 n = [] :=
      List.map_eq_nil_iff.1 (List.reverse_eq_nil_iff.1 hnil)
    exact hn (Nat.digits_eq_nil_iff_eq_zero.1 hdigits)

theorem all_isDigit_print (n : Nat) : (print n).all isDigit = true := by
  unfold print
  split
  · rfl
  · rw [List.all_reverse, List.all_map, List.all_eq_true]
    intro d hd
    exact isDigit_digitOf (Nat.digits_lt_base (by omega) hd)

/-- What is printed is read back. -/
theorem read_print (n : Nat) : read (print n) = some n := by
  rw [read, if_pos ⟨print_ne_nil n, all_isDigit_print n⟩]
  unfold print
  split
  · next hn =>
    subst hn
    rfl
  · rw [List.reverse_reverse, List.map_map]
    have hvalues : (Nat.digits 10 n).map (valueOf ∘ digitOf) = Nat.digits 10 n := by
      refine (List.map_congr_left fun d hd => ?_).trans (List.map_id' _)
      exact valueOf_digitOf (Nat.digits_lt_base (by omega) hd)
    rw [hvalues, Nat.ofDigits_digits]

/-- The decimal text, filled with zeros on the left. -/
def printPadded (width n : Nat) : List UInt16 :=
  List.replicate (width - (print n).length) 48 ++ print n

theorem read_printPadded (width n : Nat) : read (printPadded width n) = some n := by
  have hread := read_print n
  have hprint : print n ≠ [] ∧ (print n).all isDigit = true :=
    ⟨print_ne_nil n, all_isDigit_print n⟩
  rw [read, if_pos hprint, Option.some.injEq] at hread
  have hpadded : printPadded width n ≠ [] ∧ (printPadded width n).all isDigit = true := by
    refine ⟨fun hnil => print_ne_nil n (List.append_eq_nil_iff.1 hnil).2, ?_⟩
    unfold printPadded
    rw [List.all_append, all_isDigit_print, Bool.and_true, List.all_replicate]
    split <;> rfl
  rw [read, if_pos hpadded, Option.some.injEq]
  unfold printPadded
  rw [List.reverse_append, List.map_append, Nat.ofDigits_append, hread, List.reverse_replicate,
    List.map_replicate]
  have hzeros : Nat.ofDigits 10 (List.replicate (width - (print n).length) (valueOf 48)) = 0 := by
    show Nat.ofDigits 10 (List.replicate _ 0) = 0
    exact Nat.ofDigits_replicate_zero
  rw [hzeros, Nat.mul_zero, Nat.add_zero]

theorem length_printPadded {width n : Nat} (hwidth : 1 ≤ width) (h : n < 10 ^ width) :
    (printPadded width n).length = width := by
  have hlength : (print n).length ≤ width := by
    unfold print
    split
    · exact hwidth
    · rw [List.length_reverse, List.length_map]
      exact (Nat.digits_length_le_iff (by omega) n).2 h
  unfold printPadded
  rw [List.length_append, List.length_replicate]
  omega

end Decimals
