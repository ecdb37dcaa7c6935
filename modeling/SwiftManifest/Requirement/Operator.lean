import SwiftManifest.Text.Lines

/-! The range operators of version constraints. -/

namespace SwiftManifest

inductive RangeOperator where
  | notEqual | equal | closedRange | halfOpenRange | atMost | atLeast | below | above
  deriving DecidableEq, Repr

namespace RangeOperator

def symbol : RangeOperator → String
  | .notEqual => "!="
  | .equal => "=="
  | .closedRange => "..."
  | .halfOpenRange => "..<"
  | .atMost => "<="
  | .atLeast => ">="
  | .below => "<"
  | .above => ">"

def text (o : RangeOperator) : Text := o.symbol.toList

/-- Every operator, in the order in which they claim their text. An operator stands before the
ones that are part of it. -/
def all : List RangeOperator :=
  [.notEqual, .equal, .closedRange, .halfOpenRange, .atMost, .atLeast, .below, .above]

end RangeOperator

end SwiftManifest
