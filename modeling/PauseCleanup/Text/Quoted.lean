import PauseCleanup.Text.Extending
import PauseCleanup.Text.Hidden
/-!
# Quoted text

A text between double quotes, on one line. Four controls, the backslash and the double quote have
short escapes; the other hidden and all extending characters are written by their code point.
-/
namespace PauseCleanup.Text

/-- Whether a code point lies in one of the runs. -/
def inRanges (ranges : List (Nat × Nat)) (n : Nat) : Bool :=
  ranges.any fun r => r.1 ≤ n && n ≤ r.2

def isHidden (c : Char) : Bool := inRanges hiddenRanges c.toNat

def isExtending (c : Char) : Bool := inRanges extendingRanges c.toNat

theorem isHidden_of_isWhitespace {c : Char} (h : c.isWhitespace = true) (hs : c ≠ ' ') :
    isHidden c = true := by
  simp only [Char.isWhitespace, Bool.or_eq_true, decide_eq_true_eq] at h
  rcases h with ((h | h) | h) | h
  · exact absurd h hs
  all_goals
    subst h
    decide

/-- The escape by code point, in hexadecimal digits as short as possible. -/
def escapePoint (c : Char) : List Char :=
  "\\u\x7b".toList ++ Nat.toDigits 16 c.toNat ++ ['\x7d']

def escape : Char → List Char
  | '\x00' => "\\0".toList
  | '\t' => "\\t".toList
  | '\r' => "\\r".toList
  | '\n' => "\\n".toList
  | '\\' => "\\\\".toList
  | '"' => "\\\"".toList
  | c => if isExtending c || isHidden c then escapePoint c else [c]

def quoted (s : String) : String :=
  "\"" ++ String.ofList (s.toList.flatMap escape) ++ "\""

end PauseCleanup.Text
