/-! # Blank characters

The characters that separate words: those with the Unicode property `White_Space`.
The tokenizer skips runs of them, and the console asks whether a text holds
nothing else. -/

namespace LispSession.Text

/-- A character with the Unicode property `White_Space`: the ASCII controls from tab
    to carriage return, the space, and the spaces and line separators beyond ASCII. -/
def isBlank (c : Char) : Bool :=
  ('\t' ≤ c && c ≤ '\r') || c == ' ' || c == '\u0085' || c == '\u00A0' || c == '\u1680'
    || ('\u2000' ≤ c && c ≤ '\u200A') || c == '\u2028' || c == '\u2029' || c == '\u202F'
    || c == '\u205F' || c == '\u3000'

/-- A text with no character other than blank ones. -/
def isAllBlank (text : String) : Bool :=
  text.toList.all isBlank

end LispSession.Text
