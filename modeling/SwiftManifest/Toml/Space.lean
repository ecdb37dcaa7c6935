import SwiftManifest.Text.Lines

/-! What TOML text may have between its tokens: blanks, comments and line ends. A carriage return
counts only as part of a line end. -/

namespace SwiftManifest.Toml

def isBlank (c : Char) : Bool := c = ' ' || c = '\t'

/-- Characters that may stand in comments and, but for quotes and backslashes, in strings. -/
def isPrintable (c : Char) : Bool := c = '\t' || (0x20 ≤ c.toNat && c.toNat ≠ 0x7F)

def skipBlank (cs : Text) : Text := cs.dropWhile isBlank

def readNewline : Text → Option Text
  | '\n' :: cs => some cs
  | '\r' :: '\n' :: cs => some cs
  | _ => none

def readLineEnd : Text → Option Text
  | [] => some []
  | cs => readNewline cs

def skipComment : Text → Text
  | '#' :: cs => cs.dropWhile isPrintable
  | cs => cs

/-- The rest of a line behind its last token. -/
def readTrailing (cs : Text) : Option Text :=
  readLineEnd (skipComment (skipBlank cs))

/-- Blanks, comments and line ends between the elements of an array. -/
def skipLines : Nat → Text → Text
  | 0, cs => cs
  | fuel + 1, cs =>
    match readNewline (skipComment (skipBlank cs)) with
    | some cs => skipLines fuel cs
    | none => skipBlank cs

end SwiftManifest.Toml
