/-!
The options of a run.
-/

namespace ScriptTree

/-- The options of a run. -/
structure Settings where
  /-- The operator `%` multiplies, as it once did, and takes no remainder. -/
  legacyModulo : Bool := false
  /-- How deep evaluations may be nested; a small limit counts as `leastLimit`. -/
  recursionLimit : Nat := 50000
  /-- Every call is logged. -/
  traceCalls : Bool := false
  deriving DecidableEq, Repr

namespace Settings

/-- The options of a run that asks for none. -/
def standard : Settings := {}

/-- The limit that applies whatever smaller limit is asked for. -/
def leastLimit : Nat := 1000

/-- The greatest limit with which a run is admitted. -/
def greatestLimit : Nat := 2147483647

/-- The limit that applies. -/
def effectiveLimit (settings : Settings) : Nat :=
  max leastLimit settings.recursionLimit

/-- How many evaluations may be active at one time: each counts twice against the limit, once
for the node and once for the rule that it follows. -/
def depth (settings : Settings) : Nat :=
  settings.effectiveLimit / 2

/-- A larger limit never allows less. -/
theorem depth_le_depth {small large : Settings}
    (le : small.recursionLimit ≤ large.recursionLimit) : small.depth ≤ large.depth := by
  unfold depth effectiveLimit
  omega

end Settings

end ScriptTree
