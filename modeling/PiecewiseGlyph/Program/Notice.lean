/-!
# Notices

What the program tells about its work beside its output. How much of it is shown is chosen by a
verbosity.
-/

namespace PiecewiseGlyph

/-- The weight of a notice. -/
inductive Level
  | error
  | warn
  | info
  | debug
  | trace
  deriving DecidableEq, Repr

/-- The least notices shown at a verbosity. -/
def Level.ofVerbosity : Nat → Level
  | 0 => warn
  | 1 => info
  | 2 => debug
  | _ => trace

/-- The name of a level. -/
def Level.name : Level → String
  | error => "error"
  | warn => "warn"
  | info => "info"
  | debug => "debug"
  | trace => "trace"

/-- The weights in order, the heaviest first. -/
def Level.rank : Level → Nat
  | error => 0
  | warn => 1
  | info => 2
  | debug => 3
  | trace => 4

/-- A message with its weight. -/
structure Notice where
  level : Level
  message : String
  deriving DecidableEq, Repr

/-- Whether a notice is heavy enough to be shown at a verbosity. -/
def Notice.isShown (n : Notice) (verbosity : Nat) : Bool :=
  n.level.rank ≤ (Level.ofVerbosity verbosity).rank

/-- A notice as a line. -/
def Notice.line (n : Notice) : String := n.level.name.toUpper ++ " " ++ n.message

end PiecewiseGlyph
