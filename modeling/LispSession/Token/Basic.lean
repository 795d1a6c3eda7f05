/-! # Tokens

The words and marks that a source text is made of, with where each one stands. Every
character of a text belongs to exactly one token; blanks, line ends and comments are
tokens too, set apart as trivia. -/

namespace LispSession

/-- The reserved words that open the special forms. -/
inductive Keyword where
  | define
  | lambda
  | branch
  | sequence
  | assign
  | cons
deriving DecidableEq, Repr

namespace Keyword

/-- Every keyword, in the order in which they are tried. -/
def all : List Keyword := [define, lambda, branch, sequence, assign, cons]

/-- How the keyword is written. -/
def text : Keyword → String
  | define => "define"
  | lambda => "lambda"
  | branch => "if"
  | sequence => "begin"
  | assign => "set!"
  | cons => "cons"

end Keyword

/-- What a token is. -/
inductive TokenKind where
  | leftParen
  | rightParen
  | quote
  | keyword (word : Keyword)
  | number
  | string
  | boolean
  | symbol
  | comment
  | blank
  | lineEnd
  | endOfInput
  /-- A single character that begins no other token. -/
  | unrecognized
deriving DecidableEq, Repr

namespace TokenKind

/-- Trivia separates other tokens and means nothing itself. -/
def isTrivia : TokenKind → Bool
  | comment | blank | lineEnd => true
  | _ => false

/-- The class of the token, as messages name it. -/
def label : TokenKind → String
  | leftParen | rightParen | quote => "punctuation"
  | keyword _ => "keyword"
  | number => "number"
  | string => "string"
  | boolean => "boolean"
  | symbol => "symbol"
  | comment => "comment"
  | blank => "whitespace"
  | lineEnd => "end of line"
  | endOfInput => "end of input"
  | unrecognized => "unrecognized input"

end TokenKind

/-- A place between two characters of a text. Lines and columns count from one, and a
    column counts the characters of its line. -/
structure Position where
  line : Nat
  column : Nat
deriving DecidableEq, Repr

namespace Position

/-- The place before the first character. -/
def start : Position := ⟨1, 1⟩

/-- The place after a character. Only a newline starts a new line. -/
def advance (p : Position) (c : Char) : Position :=
  if c = '\n' then ⟨p.line + 1, 1⟩ else ⟨p.line, p.column + 1⟩

/-- The place after some characters. -/
def after (p : Position) (cs : List Char) : Position :=
  cs.foldl advance p

/-- No characters move the place nowhere. -/
@[simp] theorem after_nil (p : Position) : p.after [] = p := rfl

/-- The place after some characters is found from the first one on. -/
@[simp] theorem after_cons (p : Position) (c : Char) (cs : List Char) :
    p.after (c :: cs) = (p.advance c).after cs := rfl

end Position

/-- A token: what it is, its characters, and the places before and after them. -/
structure Token where
  kind : TokenKind
  text : String
  first : Position
  last : Position
deriving DecidableEq, Repr

namespace Token

/-- The token as messages name it: its class and its characters, or just the end of the
    input. -/
def describe (t : Token) : String :=
  match t.kind with
  | .endOfInput => TokenKind.endOfInput.label
  | kind => kind.label ++ " `" ++ t.text ++ "`"

end Token

end LispSession
