import SwiftManifest.Text.Lines

/-! String literals of a manifest. A literal holds no raw quote, line feed or carriage return, so
the first quote without a backslash before it closes it. -/

namespace SwiftManifest

def escaped : Char → Text
  | '"' => ['\\', '"']
  | '\\' => ['\\', '\\']
  | '\n' => ['\\', 'n']
  | '\r' => ['\\', 'r']
  | c => [c]

def quoted (value : Text) : Text :=
  '"' :: value.flatMap escaped ++ ['"']

/-- An array literal of strings, on one line. -/
def quotedList (values : List String) : Text :=
  '[' :: joined ", " (values.map fun v => quoted v.toList) ++ [']']

end SwiftManifest
