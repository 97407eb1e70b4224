/-
  Descent.Text.Quoted

  Text between double quotes, safe to show on one line.  It works character by character: a few
  characters have a short escape, one that cannot be shown as itself or would join what stands
  before it is written by its code point, and every other stands for itself.  A single quote needs
  no escape.
-/
import Descent.Text.Combining
import Descent.Text.Unprintable

namespace Descent.Text

/-- How one character is written between double quotes. -/
def escape (c : Char) : List Char :=
  match c with
  | '\x00' => ['\\', '0']
  | '\t' => ['\\', 't']
  | '\r' => ['\\', 'r']
  | '\n' => ['\\', 'n']
  | '"' => ['\\', '"']
  | '\\' => ['\\', '\\']
  | c =>
    if isCombining c || isUnprintable c then
      ['\\', 'u', '\x7b'] ++ Nat.toDigits 16 c.toNat ++ ['\x7d']
    else
      [c]

/-- A text as it stands between its double quotes. -/
def escapeAll (cs : List Char) : List Char := cs.flatMap escape

/-- A text in double quotes. -/
def quote (cs : List Char) : List Char := '"' :: escapeAll cs ++ ['"']

@[simp] theorem escapeAll_append (cs ds : List Char) :
    escapeAll (cs ++ ds) = escapeAll cs ++ escapeAll ds := by
  simp [escapeAll]

-- The short escapes, a single quote, a joining accent, a sound mark with a place of its own, a
-- filler, and a character outside the first plane.
example : quote "a\t'\"\\".toList = "\"a\\t'\\\"\\\\\"".toList := by decide
example : escape '\u0301' = "\\u\x7b301\x7d".toList := by decide
example : escape '\uff9e' = ['\uff9e'] := by decide +kernel
example : escape '\u3164' = "\\u\x7b3164\x7d".toList := by decide +kernel
example : escape '😀' = ['😀'] := by decide +kernel

end Descent.Text
