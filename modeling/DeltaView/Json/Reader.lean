import DeltaView.Json.Draft
import DeltaView.Number.Numeral

/-!
# Reading interchange texts

A text is cut into tokens one character at a time, and the tokens drive a machine whose stack
holds the open containers. Neither part looks ahead or back, so both are folds. The result is a
draft, and the tree is taken from it.

* A word is a longest run of letters, digits, signs and points; it must be a constant or a
  numeral.
* A numeral without point and exponent is a whole number if 64 bits hold it, except `-0`, which is a
  float as all others are. A float beyond the finite doubles has no meaning.
* A text is a list of codes; two of them may be the halves of one character, and a half alone has
  no meaning.
* `Json.read?` reads all of a text, and `Json.readShape?` the parts of a shape, with a bound on the
  number of containers inside each other.
-/

namespace DeltaView

namespace Json

/-! ## Tokens -/

inductive Token where
  | openArray
  | closeArray
  | openObject
  | closeObject
  | comma
  | colon
  | text (s : Option String)
  | scalar (meaning : Option Json)

/-- Where the lexer stands; the characters or codes of the token at hand are kept in reverse. -/
inductive LexMode where
  | between
  | word (rev : List Char)
  | text (rev : List Nat)
  /-- After a backslash. -/
  | escape (rev : List Nat)
  /-- In a `\u` escape with `left` digits to come. -/
  | hex (left code : Nat) (rev : List Nat)

def isBlank (c : Char) : Bool := c == ' ' || c == '\t' || c == '\n' || c == '\r'

def isWordChar (c : Char) : Bool := c.isAlphanum || c == '+' || c == '-' || c == '.'

/-- What a numeral denotes: a whole number if it is one that 64 bits hold, or else a float. -/
def ofNumeral? (n : Numeral) : Option Json :=
  match n.toInt? with
  | some k => some (.int k)
  | none => n.toDouble?.map .float

/-- The token of a word. -/
def word? (cs : List Char) : Option Token :=
  if cs = ['n', 'u', 'l', 'l'] then some (.scalar (some .null))
  else if cs = ['t', 'r', 'u', 'e'] then some (.scalar (some (.bool true)))
  else if cs = ['f', 'a', 'l', 's', 'e'] then some (.scalar (some (.bool false)))
  else (Numeral.read? cs).map fun n => .scalar (ofNumeral? n)

/-- The character that a one-letter escape stands for. -/
def unescape? : Char → Option Char
  | '"' => some '"'
  | '\\' => some '\\'
  | '/' => some '/'
  | 'b' => some '\x08'
  | 'f' => some '\x0c'
  | 'n' => some '\n'
  | 'r' => some '\r'
  | 't' => some '\t'
  | _ => none

def hexDigit? (c : Char) : Option Nat :=
  if '0' ≤ c && c ≤ '9' then some (c.toNat - '0'.toNat)
  else if 'a' ≤ c && c ≤ 'f' then some (c.toNat - 'a'.toNat + 10)
  else if 'A' ≤ c && c ≤ 'F' then some (c.toNat - 'A'.toNat + 10)
  else none

def isHighSurrogate (u : Nat) : Bool := 0xD800 ≤ u && u < 0xDC00
def isLowSurrogate (u : Nat) : Bool := 0xDC00 ≤ u && u < 0xE000

/-- The characters of a list of codes. -/
def charsOf? : List Nat → Option (List Char)
  | [] => some []
  | u :: us =>
    if isLowSurrogate u then none
    else if isHighSurrogate u then
      match us with
      | v :: vs =>
        if isLowSurrogate v then
          (charsOf? vs).map (Char.ofNat (0x10000 + (u - 0xD800) * 0x400 + (v - 0xDC00)) :: ·)
        else none
      | [] => none
    else (charsOf? us).map (Char.ofNat u :: ·)

/-- A character outside words and texts. -/
def lexBetween? (c : Char) : Option (LexMode × List Token) :=
  if isBlank c then some (.between, [])
  else if isWordChar c then some (.word [c], [])
  else match c with
    | '"' => some (.text [], [])
    | '[' => some (.between, [.openArray])
    | ']' => some (.between, [.closeArray])
    | '{' => some (.between, [.openObject])
    | '}' => some (.between, [.closeObject])
    | ',' => some (.between, [.comma])
    | ':' => some (.between, [.colon])
    | _ => none

/-- One character: the next mode and the tokens that are complete. -/
def lexChar? : LexMode → Char → Option (LexMode × List Token)
  | .between, c => lexBetween? c
  | .word rev, c =>
    if isWordChar c then some (.word (c :: rev), [])
    else do
      let t ← word? rev.reverse
      let (mode, ts) ← lexBetween? c
      some (mode, t :: ts)
  | .text rev, c =>
    if c == '"' then some (.between, [.text ((charsOf? rev.reverse).map String.ofList)])
    else if c == '\\' then some (.escape rev, [])
    else if c.toNat < 0x20 then none
    else some (.text (c.toNat :: rev), [])
  | .escape rev, c =>
    if c == 'u' then some (.hex 4 0 rev, [])
    else (unescape? c).map fun e => (.text (e.toNat :: rev), [])
  | .hex left code rev, c => do
    let d ← hexDigit? c
    if left ≤ 1 then some (.text ((16 * code + d) :: rev), [])
    else some (.hex (left - 1) (16 * code + d) rev, [])

/-- The tokens of the characters that follow a mode. -/
def lex? : LexMode → List Char → Option (List Token)
  | .between, [] => some []
  | .word rev, [] => do
    let t ← word? rev.reverse
    some [t]
  | _, [] => none
  | mode, c :: cs => do
    let (mode, ts) ← lexChar? mode c
    let rest ← lex? mode cs
    some (ts ++ rest)

/-! ## Drafts -/

/-- An open container with what it already holds, last first. -/
inductive Frame where
  | array (done : List Draft)
  | object (done : List (Option String × Draft)) (name : Option String)

/-- What the machine expects, above the containers that are open. -/
inductive Expect where
  /-- A value. -/
  | value (stack : List Frame)
  /-- The first item of an array, or its end. -/
  | item (stack : List Frame)
  /-- A member's name, or the end of an object that is still empty. -/
  | name (done : List (Option String × Draft)) (stack : List Frame)
  /-- The colon after a name. -/
  | colon (done : List (Option String × Draft)) (name : Option String) (stack : List Frame)
  /-- What may follow a complete value. -/
  | after (t : Draft) (stack : List Frame)

/-- A token where a value may start. -/
def startValue? (stack : List Frame) : Token → Option Expect
  | .scalar meaning => some (.after (.scalar meaning) stack)
  | .text s => some (.after (.scalar (s.map .string)) stack)
  | .openArray => some (.item stack)
  | .openObject => some (.name [] stack)
  | _ => none

/-- A token after a complete value. -/
def follow? (t : Draft) : List Frame → Token → Option Expect
  | .array done :: stack, .comma => some (.value (.array (t :: done) :: stack))
  | .array done :: stack, .closeArray => some (.after (.array (t :: done).reverse) stack)
  | .object done name :: stack, .comma => some (.name ((name, t) :: done) stack)
  | .object done name :: stack, .closeObject =>
    some (.after (.object ((name, t) :: done).reverse) stack)
  | _, _ => none

/-- One token. -/
def accept? : Expect → Token → Option Expect
  | .value stack, t => startValue? stack t
  | .item stack, .closeArray => some (.after (.array []) stack)
  | .item stack, t => startValue? (.array [] :: stack) t
  | .name [] stack, .closeObject => some (.after (.object []) stack)
  | .name done stack, .text s => some (.colon done s stack)
  | .name _ _, _ => none
  | .colon done name stack, .colon => some (.value (.object done name :: stack))
  | .colon _ _ _, _ => none
  | .after t stack, token => follow? t stack token

/-- The draft of a complete sequence of tokens. -/
def draftOf? : Expect → List Token → Option Draft
  | .after t [], [] => some t
  | _, [] => none
  | state, t :: ts => do
    let state ← accept? state t
    draftOf? state ts

/-- The draft of a whole text. -/
def Draft.read? (text : String) : Option Draft := do
  let ts ← lex? .between text.toList
  draftOf? (.value []) ts

/-! ## Trees -/

/-- Reads all of a text that opens at most `depth` containers inside each other. -/
def readWithin? (depth : Nat) (text : String) : Option Json :=
  (Draft.read? text).bind (Draft.json? depth .whole)

/-- The number of containers that a text may open inside each other where they are asked for. -/
def depthLimit : Nat := 127

/-- Reads the parts of a text that a shape asks for. -/
def readShape? (shape : Shape) (text : String) : Option Json :=
  (Draft.read? text).bind (Draft.json? depthLimit shape)

/-- Reads all of a text. -/
def read? (text : String) : Option Json := readShape? .whole text

end Json

end DeltaView
