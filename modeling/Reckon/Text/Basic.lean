import Reckon.Text.Printable

/-!
# Characters in a line of text

Blank characters are those with the Unicode property `White_Space`; text can be trimmed of them at
both ends. Text that is shown in double quotes stays on one line, and every character in it that
cannot be seen by itself is escaped.
-/

namespace Reckon.Text

/-! ## Blanks -/

/-- Whether a character is blank: a control that separates or feeds lines, or a space of any width.
-/
def isBlank (c : Char) : Bool :=
  let n := c.toNat
  (9 ≤ n && n ≤ 13) || n == 0x20 || n == 0x85 || n == 0xa0 || n == 0x1680
    || (0x2000 ≤ n && n ≤ 0x200a) || n == 0x2028 || n == 0x2029 || n == 0x202f || n == 0x205f
    || n == 0x3000

/-- Characters without the blank ones at both ends. -/
def trimChars (cs : List Char) : List Char :=
  ((cs.dropWhile isBlank).reverse.dropWhile isBlank).reverse

/-- Text without the blank characters at both ends. -/
def trim (s : String) : String := String.ofList (trimChars s.toList)

/-! ## Quotes -/

/-- A character as it stands between double quotes. -/
def quotedChar (c : Char) : List Char :=
  match c with
  | '\x00' => ['\\', '0']
  | '\t' => ['\\', 't']
  | '\n' => ['\\', 'n']
  | '\r' => ['\\', 'r']
  | '"' => ['\\', '"']
  | '\\' => ['\\', '\\']
  | _ => if isPrintable c then [c] else "\\u\x7b".toList ++ Nat.toDigits 16 c.toNat ++ ['\x7d']

/-- Text in double quotes. -/
def quoted (s : String) : String := String.ofList ('"' :: s.toList.flatMap quotedChar ++ ['"'])

end Reckon.Text
