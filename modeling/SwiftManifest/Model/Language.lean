import SwiftManifest.Symbolic

/-! Language standards, and the Swift language versions a package supports. -/

namespace SwiftManifest

inductive CLanguageStandard where
  | c89 | c90 | c99 | c11 | c17 | c18 | c2x | gnu89 | gnu90 | gnu99 | gnu11 | gnu17 | gnu18
  | gnu2x | iso9899_1990 | iso9899_199409 | iso9899_1999 | iso9899_2011 | iso9899_2017
  | iso9899_2018
  deriving DecidableEq, Repr

namespace CLanguageStandard

def symbol : CLanguageStandard → String
  | .c89 => "c89"
  | .c90 => "c90"
  | .c99 => "c99"
  | .c11 => "c11"
  | .c17 => "c17"
  | .c18 => "c18"
  | .c2x => "c2x"
  | .gnu89 => "gnu89"
  | .gnu90 => "gnu90"
  | .gnu99 => "gnu99"
  | .gnu11 => "gnu11"
  | .gnu17 => "gnu17"
  | .gnu18 => "gnu18"
  | .gnu2x => "gnu2x"
  | .iso9899_1990 => "iso9899_1990"
  | .iso9899_199409 => "iso9899_199409"
  | .iso9899_1999 => "iso9899_1999"
  | .iso9899_2011 => "iso9899_2011"
  | .iso9899_2017 => "iso9899_2017"
  | .iso9899_2018 => "iso9899_2018"

instance : Symbolic CLanguageStandard where
  kind := "CLanguageStandard"
  all := [
    .c89, .c90, .c99, .c11, .c17, .c18, .c2x, .gnu89, .gnu90, .gnu99, .gnu11, .gnu17, .gnu18,
    .gnu2x, .iso9899_1990, .iso9899_199409, .iso9899_1999, .iso9899_2011, .iso9899_2017,
    .iso9899_2018]
  symbol := symbol
  mem_all := by intro a; cases a <;> decide
  symbols_nodup := by decide

end CLanguageStandard

inductive CxxLanguageStandard where
  | cxx98 | cxx03 | cxx11 | cxx14 | cxx1z | cxx17 | cxx20 | cxx2b | gnucxx98 | gnucxx03
  | gnucxx11 | gnucxx14 | gnucxx1z | gnucxx17 | gnucxx20 | gnucxx2b
  deriving DecidableEq, Repr

namespace CxxLanguageStandard

def symbol : CxxLanguageStandard → String
  | .cxx98 => "cxx98"
  | .cxx03 => "cxx03"
  | .cxx11 => "cxx11"
  | .cxx14 => "cxx14"
  | .cxx1z => "cxx1z"
  | .cxx17 => "cxx17"
  | .cxx20 => "cxx20"
  | .cxx2b => "cxx2b"
  | .gnucxx98 => "gnucxx98"
  | .gnucxx03 => "gnucxx03"
  | .gnucxx11 => "gnucxx11"
  | .gnucxx14 => "gnucxx14"
  | .gnucxx1z => "gnucxx1z"
  | .gnucxx17 => "gnucxx17"
  | .gnucxx20 => "gnucxx20"
  | .gnucxx2b => "gnucxx2b"

instance : Symbolic CxxLanguageStandard where
  kind := "CxxLanguageStandard"
  all := [
    .cxx98, .cxx03, .cxx11, .cxx14, .cxx1z, .cxx17, .cxx20, .cxx2b, .gnucxx98, .gnucxx03,
    .gnucxx11, .gnucxx14, .gnucxx1z, .gnucxx17, .gnucxx20, .gnucxx2b]
  symbol := symbol
  mem_all := by intro a; cases a <;> decide
  symbols_nodup := by decide

end CxxLanguageStandard

inductive SwiftLanguageVersion where
  | v4 | v4_2 | v5 | v6
  | custom (version : String)
  deriving DecidableEq, Repr

end SwiftManifest
