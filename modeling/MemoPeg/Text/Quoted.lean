import MemoPeg.Text.GraphemeExtend
import MemoPeg.Text.Unprintable

/-!
Text between double quotes, as trees and literals show it. A double quote, a backslash and four
controls have short escapes; every other character that would not be seen by itself (it joins
the character before it, or has no visible form) is written by its code point; all else,
the single quote too, stands for itself.
-/

namespace MemoPeg.Text

/-- The Hangul fillers: letters that stand for no sound and show nothing. -/
def fillers : Ranges := [(0x115F, 0x1160), (0x3164, 0x3164), (0xFFA0, 0xFFA0)]

/-- The halfwidth katakana sound marks: they extend the character before them, yet are letters with a
width and a form of their own. -/
def soundMarks : Ranges := [(0xFF9E, 0xFF9F)]

/-- Whether a character cannot be read off where it stands. -/
def isHidden (c : Char) : Bool :=
  unprintable.contains c || fillers.contains c || (graphemeExtend.contains c && !soundMarks.contains c)

/-- A code point in lowercase hexadecimal between braces. -/
def codeEscape (c : Char) : List Char :=
  "\\u\x7b".toList ++ Nat.toDigits 16 c.toNat ++ "\x7d".toList

def escape (c : Char) : List Char :=
  match c with
  | '"' => ['\\', '"']
  | '\\' => ['\\', '\\']
  | '\n' => ['\\', 'n']
  | '\r' => ['\\', 'r']
  | '\t' => ['\\', 't']
  | '\x00' => ['\\', '0']
  | c => if isHidden c then codeEscape c else [c]

def quoted (text : List Char) : String :=
  String.ofList ('"' :: text.flatMap escape ++ ['"'])

end MemoPeg.Text
