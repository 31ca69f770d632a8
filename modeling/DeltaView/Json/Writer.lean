import DeltaView.Json.Basic

/-!
# Writing interchange texts

A tree has one compact text without any blanks, and one indented text with two blanks a level and
an empty container closed at once. In a quoted text only the quote, the backslash and the control
characters below U+0020 are escaped.
-/

namespace DeltaView

namespace Json

/-! ## Texts in quotes -/

/-- The escape of a character that may not stand for itself. -/
def escape? (c : Char) : Option (List Char) :=
  if c == '"' then some ['\\', '"']
  else if c == '\\' then some ['\\', '\\']
  else if c == '\x08' then some ['\\', 'b']
  else if c == '\x0c' then some ['\\', 'f']
  else if c == '\n' then some ['\\', 'n']
  else if c == '\r' then some ['\\', 'r']
  else if c == '\t' then some ['\\', 't']
  else if c.toNat < 0x20 then
    some ['\\', 'u', '0', '0', Nat.digitChar (c.toNat / 16), Nat.digitChar (c.toNat % 16)]
  else none

def quoteChars : List Char → List Char
  | [] => ['"']
  | c :: cs => (escape? c).getD [c] ++ quoteChars cs

/-- A text in quotes. -/
def quote (s : String) : List Char := '"' :: quoteChars s.toList

/-! ## Trees -/

/-- The text of a tree without containers; numbers that are not finite have none but `null`. -/
def scalarChars : Json → List Char
  | .bool true => ['t', 'r', 'u', 'e']
  | .bool false => ['f', 'a', 'l', 's', 'e']
  | .int n => digitsOfInt n
  | .float x => x.text?.getD ['n', 'u', 'l', 'l']
  | .string s => quote s
  | _ => ['n', 'u', 'l', 'l']

mutual

/-- The compact text. -/
def compactChars : Json → List Char
  | .array items => '[' :: compactItems true items
  | .object members => '{' :: compactMembers true members
  | j => scalarChars j

/-- Items up to the closing bracket; a comma precedes all but the first. -/
def compactItems : Bool → List Json → List Char
  | _, [] => [']']
  | isFirst, j :: js =>
    (if isFirst then [] else [',']) ++ compactChars j ++ compactItems false js

def compactMembers : Bool → List (String × Json) → List Char
  | _, [] => ['}']
  | isFirst, (name, j) :: rest =>
    (if isFirst then [] else [',']) ++ quote name ++ ':' :: compactChars j
      ++ compactMembers false rest

end

/-- The compact text of a tree. -/
def compact (j : Json) : String := String.ofList (compactChars j)

/-- A line break and the indentation of a level. -/
def newLine (level : Nat) : List Char := '\n' :: List.replicate (2 * level) ' '

mutual

/-- The indented text, inside `level` containers. -/
def prettyChars (level : Nat) : Json → List Char
  | .array items => '[' :: prettyItems (level + 1) true items
  | .object members => '{' :: prettyMembers (level + 1) true members
  | j => scalarChars j

def prettyItems (level : Nat) : Bool → List Json → List Char
  | isFirst, [] => if isFirst then [']'] else newLine (level - 1) ++ [']']
  | isFirst, j :: js =>
    (if isFirst then [] else [',']) ++ newLine level ++ prettyChars level j
      ++ prettyItems level false js

def prettyMembers (level : Nat) : Bool → List (String × Json) → List Char
  | isFirst, [] => if isFirst then ['}'] else newLine (level - 1) ++ ['}']
  | isFirst, (name, j) :: rest =>
    (if isFirst then [] else [',']) ++ newLine level ++ quote name ++ ':' :: ' ' ::
      prettyChars level j ++ prettyMembers level false rest

end

/-- The indented text of a tree. -/
def pretty (j : Json) : String := String.ofList (prettyChars 0 j)

end Json

end DeltaView
