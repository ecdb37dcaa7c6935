import SwiftManifest.Text.Quoted

/-! The shapes of compound manifest text: symbols, bracketed lists and calls. A list and a call put
every entry on lines of its own, one tab further right; an inline call keeps to the line. -/

namespace SwiftManifest

def symbolText (name : Text) : Text := '.' :: name

def bracketedList (entries : List Text) : Text :=
  if entries.isEmpty then ['[', ']']
  else '[' :: '\n' :: indent (joined ",\n" entries) ++ ['\n', ']']

def labeledText (label value : Text) : Text := label ++ ':' :: ' ' :: value

/-- Without arguments the two line feeds stay. -/
def callText (keyword : Text) (arguments : List Text) : Text :=
  keyword ++ '(' :: '\n' :: indent (joined ",\n" arguments) ++ ['\n', ')']

def inlineCallText (keyword : Text) (arguments : List Text) : Text :=
  keyword ++ '(' :: joined ", " arguments ++ [')']

end SwiftManifest
