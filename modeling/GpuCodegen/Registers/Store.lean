import GpuCodegen.Registers.Interval

/-!
Interval stores. An interval keeps the index it was added at; two permutations of the indices order
the intervals by their start and by their end.
-/

namespace GpuCodegen

/-- Intervals with their two orders. -/
structure IntervalStore where
  intervals : List Interval := []
  byStart : List Nat := []
  byEnd : List Nat := []
  deriving DecidableEq, Repr

namespace IntervalStore

/-- The store without intervals. -/
def empty : IntervalStore := {}

/-- The number of intervals. -/
def size (s : IntervalStore) : Nat := s.intervals.length

/-- The interval at an index. -/
def get (s : IntervalStore) (index : Nat) : Interval := s.intervals.getD index default

/-- Appends an interval; both orders get its index at their end. -/
def add (s : IntervalStore) (i : Interval) : IntervalStore where
  intervals := s.intervals ++ [i]
  byStart := s.byStart ++ [s.size]
  byEnd := s.byEnd ++ [s.size]

/-- Changes the interval at an index. -/
def modify (s : IntervalStore) (index : Nat) (f : Interval → Interval) : IntervalStore :=
  { s with intervals := s.intervals.modify index f }

/-- The indices ordered by a point of the intervals; ties keep the order of insertion. -/
def ordered (s : IntervalStore) (point : Interval → Int) : List Nat :=
  (List.range s.size).mergeSort fun a b => point (s.get a) ≤ point (s.get b)

/-- Orders the start view. -/
def sortByStart (s : IntervalStore) : IntervalStore := { s with byStart := s.ordered Interval.min }

/-- Orders the end view. -/
def sortByEnd (s : IntervalStore) : IntervalStore := { s with byEnd := s.ordered Interval.max }

/-- Orders both views. -/
def sorted (s : IntervalStore) : IntervalStore := s.sortByStart.sortByEnd

end IntervalStore

end GpuCodegen
