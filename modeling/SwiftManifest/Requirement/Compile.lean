import SwiftManifest.Requirement.Matching
import SwiftManifest.Text.Quoted
import SwiftManifest.Event

/-! Version constraints as requirement expressions. A constraint without operators is a lower
bound; otherwise every matched operator contributes a piece, with the text around it as literals,
and the pieces follow each other without a separator. Bounds are not checked. -/

namespace SwiftManifest

/-- One operator with the text left and right of it. At the very start it is written in front of
its bound; nothing is written for an empty right side. -/
def operatorPiece (constraint : Text) (m : OperatorMatch) : Text :=
  let right := constraint.drop (m.start + m.operator.text.length)
  if m.start = 0 then m.operator.text ++ quoted right
  else quoted (constraint.take m.start) ++ m.operator.text ++
    if right.isEmpty then [] else quoted right

def requirement (constraint : Text) : Text :=
  match operatorMatches constraint with
  | [] => "from: ".toList ++ quoted constraint
  | ms => ms.flatMap (operatorPiece constraint)

/-- The requirement of a constraint; several operators in one constraint are reported. -/
def tracedRequirement (constraint : String) : Traced Text :=
  let operators := (operatorMatches constraint.toList).map OperatorMatch.operator
  { value := requirement constraint.toList
    events := if operators.length > 1 then [.severalOperators constraint operators] else [] }

end SwiftManifest
