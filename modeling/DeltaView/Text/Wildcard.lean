/-!
# Wildcard patterns

A pattern is a text in which `%` stands for any run of characters, `_` for exactly one character,
and a backslash takes the next character as it is. A pattern that ends in a lone backslash matches
no text.

* `Pattern.ofChars` reads the pieces of a pattern.
* `Pattern.accepts` tries the pieces from left to right; a run tries every rest of the text.
-/

namespace DeltaView

namespace Pattern

inductive Piece where
  /-- Any run of characters. -/
  | run
  /-- Any one character. -/
  | one
  | literal (c : Char)
  /-- A backslash with nothing after it, which nothing matches. -/
  | broken
deriving DecidableEq

/-- The pieces of a pattern. -/
def ofChars : List Char → List Piece
  | [] => []
  | '%' :: p => .run :: ofChars p
  | '_' :: p => .one :: ofChars p
  | ['\\'] => [.broken]
  | '\\' :: c :: p => .literal c :: ofChars p
  | c :: p => .literal c :: ofChars p

/-- Does some rest of the text, the whole and the empty one included, pass the test? -/
def anyRest (test : List Char → Bool) : List Char → Bool
  | [] => test []
  | c :: s => test (c :: s) || anyRest test s

/-- Do the pieces match the whole text? -/
def accepts : List Piece → List Char → Bool
  | [], s => s.isEmpty
  | .run :: p, s => anyRest (accepts p) s
  | .one :: p, s =>
    match s with
    | [] => false
    | _ :: s => accepts p s
  | .literal c :: p, s =>
    match s with
    | [] => false
    | d :: s => c == d && accepts p s
  | .broken :: _, _ => false

end Pattern

/-- Does the pattern match the whole text? -/
def isLike (text pattern : String) : Bool :=
  Pattern.accepts (Pattern.ofChars pattern.toList) text.toList

end DeltaView
