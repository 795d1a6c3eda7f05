/-! # Lines of bytes

How a stream of bytes divides into lines of text. A newline ends a line, and a carriage
return just before it belongs to it; the last line may lack its newline. Bytes that are
no UTF-8 are no text. -/

namespace LispSession.Text

/-- The byte of a newline. -/
def newline : UInt8 := 10

/-- The byte of a carriage return. -/
def carriageReturn : UInt8 := 13

/-- A line whose bytes are given last first, without a carriage return at its end. -/
def endLine : List UInt8 → List UInt8
  | [] => []
  | b :: line => if b = carriageReturn then line.reverse else (b :: line).reverse

/-- The lines of some bytes, where the bytes of the first line that come before them are
    given last first. -/
def linesFrom (line : List UInt8) : List UInt8 → List (List UInt8)
  | [] => if line.isEmpty then [] else [line.reverse]
  | b :: bytes =>
    if b = newline then endLine line :: linesFrom [] bytes else linesFrom (b :: line) bytes

/-- The text of some bytes. -/
def ofBytes? (bytes : List UInt8) : Option String := String.fromUTF8? ⟨bytes.toArray⟩

/-- The lines of a stream, each as its text if it is one. -/
def lines (bytes : List UInt8) : List (Option String) := (linesFrom [] bytes).map ofBytes?

end LispSession.Text
