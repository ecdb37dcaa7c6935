/-! The value tree of a descriptor, whatever its notation. Members of an object keep their order
and may repeat a name. -/

namespace SwiftManifest

/-- An `index` is a whole number that can count; every other number is just a `number`, since no
part of a package is numeric. A value is `unreadable` when it is well formed but cannot be held:
a number beyond double precision, a string with half a surrogate pair, or nesting that is too
deep. -/
inductive Datum where
  | null
  | bool (value : Bool)
  | index (value : Nat)
  | number
  | text (value : String)
  | array (elements : List Datum)
  | object (members : List (String × Datum))
  | unreadable
  deriving Repr

namespace Datum

mutual
/-- Whether a value can be held, with everything in it. -/
def readable : Datum → Bool
  | .unreadable => false
  | .array elements => allReadable elements
  | .object members => membersReadable members
  | _ => true

def allReadable : List Datum → Bool
  | [] => true
  | d :: ds => readable d && allReadable ds

def membersReadable : List (String × Datum) → Bool
  | [] => true
  | (_, d) :: ms => readable d && membersReadable ms
end

end Datum

end SwiftManifest
