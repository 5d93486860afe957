import FoundingSales.Text
import Mathlib.Algebra.Ring.Int.Defs
import Mathlib.Data.List.Sort

/-!
Intervals of blocked time and the length of their union.
-/

namespace FoundingSales.Rules

inductive BlockedActionKind
  | emailSend | callTask | dialAuthorization | enrollmentAdvance | research
  deriving DecidableEq

structure Interval where
  start : Instant
  stop : Instant
  deriving DecidableEq

/-- The next interval in order of its start: it lengthens the last one, or stands apart. -/
def absorb (merged : List Interval) (interval : Interval) : List Interval :=
  match merged.getLast? with
  | some last =>
    if interval.start ≤ last.stop then
      if last.stop < interval.stop then merged.dropLast ++ [⟨last.start, interval.stop⟩]
      else merged
    else merged ++ [interval]
  | none => merged ++ [interval]

/-- Overlapping and touching intervals merged into a disjoint, sorted set. -/
def mergeIntervals (intervals : List Interval) : List Interval :=
  ((intervals.filter fun i => i.start < i.stop).insertionSort fun a b => a.start ≤ b.start).foldl
    absorb []

/-- The total length of the union of the intervals, in milliseconds. -/
def unionDuration (intervals : List Interval) : Int :=
  ((mergeIntervals intervals).map fun i => i.stop - i.start).sum

/-- Two holds side by side for an hour delay the work by an hour. -/
example : unionDuration [⟨10, 20⟩, ⟨0, 15⟩, ⟨30, 31⟩, ⟨5, 5⟩] = 21 := by decide

end FoundingSales.Rules
