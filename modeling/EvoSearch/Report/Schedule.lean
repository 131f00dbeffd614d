/-
# When to report

The first report is due at once. After that, one is due whenever enough individuals have been
evaluated since the last.
-/

namespace EvoSearch

/-- The schedule of the reports of a run. Times are in nanoseconds. -/
structure Reporter where
  /-- how many individuals to wait for -/
  every : Nat
  /-- how many individuals there were at the last report -/
  last : Option Nat
  /-- when the run was set up -/
  start : Nat

namespace Reporter

/-- A schedule before the first report. -/
def ofInterval (every start : Nat) : Reporter where
  every := every
  last := none
  start := start

/-- Whether a report is due. -/
def isDue (reporter : Reporter) (individuals : Nat) : Bool :=
  match reporter.last with
  | none => true
  | some last => reporter.every ≤ individuals - last

/-- Note that a report has been made. -/
def mark (reporter : Reporter) (individuals : Nat) : Reporter :=
  { reporter with last := some individuals }

/-- Whole seconds since the run was set up. -/
def elapsedSeconds (reporter : Reporter) (now : Nat) : Nat :=
  (now - reporter.start) / 1000000000

end Reporter

end EvoSearch
