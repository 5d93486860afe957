import Mathlib.Data.List.Basic

/-!
Bytes read as UTF-8 into UTF-16 code units, whatever the bytes are: what is no character is the
replacement character.

Proved here:
* `length_decode_le`: there are no more code units than bytes.
-/

namespace Utf8

def replacement : UInt16 := 0xFFFD

/-- The code units of a code point. -/
def units (point : Nat) : List UInt16 :=
  if point < 0x10000 then [point.toUInt16]
  else
    let v := point - 0x10000
    [(0xD800 + v / 0x400).toUInt16, (0xDC00 + v % 0x400).toUInt16]

/-- A character begun: its bits so far, how many bytes it needs, and the range of the next. -/
structure Begun where
  point : Nat
  needed : Nat
  lower : Nat
  upper : Nat
  deriving DecidableEq

/-- A byte between characters. -/
def lead (b : Nat) : List UInt16 × Option Begun :=
  if b ≤ 0x7F then ([b.toUInt16], none)
  else if 0xC2 ≤ b ∧ b ≤ 0xDF then ([], some ⟨b - 0xC0, 1, 0x80, 0xBF⟩)
  else if 0xE0 ≤ b ∧ b ≤ 0xEF then
    ([], some ⟨b - 0xE0, 2, if b = 0xE0 then 0xA0 else 0x80, if b = 0xED then 0x9F else 0xBF⟩)
  else if 0xF0 ≤ b ∧ b ≤ 0xF4 then
    ([], some ⟨b - 0xF0, 3, if b = 0xF0 then 0x90 else 0x80, if b = 0xF4 then 0x8F else 0xBF⟩)
  else ([replacement], none)

/-- A byte; one that cannot follow ends the character as a replacement and is read anew. -/
def feed (begun : Option Begun) (b : Nat) : List UInt16 × Option Begun :=
  match begun with
  | none => lead b
  | some begun =>
    if begun.lower ≤ b ∧ b ≤ begun.upper then
      let point := begun.point * 64 + (b - 0x80)
      if begun.needed = 1 then (units point, none)
      else ([], some ⟨point, begun.needed - 1, 0x80, 0xBF⟩)
    else (replacement :: (lead b).1, (lead b).2)

def decodeFrom : Option Begun → List UInt8 → List UInt16
  | begun, [] => if begun.isSome then [replacement] else []
  | begun, b :: bytes => (feed begun b.toNat).1 ++ decodeFrom (feed begun b.toNat).2 bytes

/-- A byte order mark at the start is left out. -/
def decode (bytes : List UInt8) : List UInt16 :=
  decodeFrom none (if bytes.take 3 = [0xEF, 0xBB, 0xBF] then bytes.drop 3 else bytes)

/-- What a character begun may still come to, beyond its bytes to come. -/
def owed (begun : Option Begun) : Nat := if begun.isSome then 1 else 0

theorem length_units_le (point : Nat) : (units point).length ≤ 2 := by
  unfold units
  split <;> simp

theorem lead_le (b : Nat) : (lead b).1.length + owed (lead b).2 ≤ 1 := by
  unfold lead
  split
  · exact Nat.le_refl 1
  · split
    · exact Nat.le_refl 1
    · split
      · exact Nat.le_refl 1
      · split
        · exact Nat.le_refl 1
        · exact Nat.le_refl 1

theorem feed_le (begun : Option Begun) (b : Nat) :
    (feed begun b).1.length + owed (feed begun b).2 ≤ owed begun + 1 := by
  have hlead := lead_le b
  cases begun with
  | none => exact hlead
  | some begun =>
    have howed : owed (some begun) = 1 := rfl
    rw [howed]
    unfold feed
    dsimp only
    split_ifs
    · have hunits := length_units_le (begun.point * 64 + (b - 0x80))
      have howed' : owed none = 0 := rfl
      dsimp only
      omega
    · exact Nat.le_succ 1
    · show (lead b).1.length + 1 + owed (lead b).2 ≤ 2
      omega

theorem length_decodeFrom_le (begun : Option Begun) (bytes : List UInt8) :
    (decodeFrom begun bytes).length ≤ owed begun + bytes.length := by
  induction bytes generalizing begun with
  | nil =>
    cases begun <;> exact Nat.le_refl _
  | cons b bytes ih =>
    have hfeed := feed_le begun b.toNat
    have hrest := ih (feed begun b.toNat).2
    rw [decodeFrom, List.length_append, List.length_cons]
    omega

theorem length_decode_le (bytes : List UInt8) : (decode bytes).length ≤ bytes.length := by
  have howed : owed none = 0 := rfl
  unfold decode
  split
  · have hle := length_decodeFrom_le none (bytes.drop 3)
    rw [List.length_drop] at hle
    omega
  · have hle := length_decodeFrom_le none bytes
    omega

end Utf8
