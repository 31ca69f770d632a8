import DeltaView.Text.CaseTable
import DeltaView.Text.Range

/-!
# Capital and small letters

The full case mappings of the character standard: one character may become several, and a capital
sigma becomes a final one at the end of a word.

* `lowerChar` and `upperChar` map one character without regard to its neighbours.
* `lower` and `upper` map a text. Only `lower` looks at neighbours, and only for a sigma: a cased
  character before it and none after it, transparent characters not counted.
-/

namespace DeltaView

namespace Letter

/-! ## One character -/

/-- The code point that the runs map `n` to. -/
def shifted? (runs : List (Nat × Nat × Nat × Int)) (n : Nat) : Option Nat :=
  runs.findSome? fun (first, last, step, shift) =>
    if first ≤ n && n ≤ last && (n - first) % step == 0 then some (n + shift).toNat else none

/-- A character mapped by a table of long mappings and one of runs. -/
def mapped (long : List (Nat × List Nat)) (runs : List (Nat × Nat × Nat × Int)) (c : Char) :
    List Char :=
  match long.lookup c.toNat with
  | some cs => cs.map Char.ofNat
  | none => [((shifted? runs c.toNat).map Char.ofNat).getD c]

/-- The small letters of a character. -/
def lowerChar (c : Char) : List Char :=
  if c.toNat < 0x80 then [c.toLower] else mapped lowerLong lowerRuns c

/-- The capital letters of a character. -/
def upperChar (c : Char) : List Char :=
  if c.toNat < 0x80 then [c.toUpper] else mapped upperLong upperRuns c

/-! ## Words -/

def isCased (c : Char) : Bool := inRanges casedRanges c

def isTransparent (c : Char) : Bool := inRanges transparentRanges c

/-- Is the first character that is not transparent a cased one? -/
def startsCased : List Char → Bool
  | [] => false
  | c :: cs => if isTransparent c then startsCased cs else isCased c

/-- The small letters of a text that follows a cased character or not. -/
def lowerAfter : Bool → List Char → List Char
  | _, [] => []
  | cased, c :: cs =>
    let cased' := if isTransparent c then cased else isCased c
    if c = 'Σ' then (if cased && !startsCased cs then 'ς' else 'σ') :: lowerAfter cased' cs
    else lowerChar c ++ lowerAfter cased' cs

/-! ## Texts -/

/-- A text in small letters. -/
def lower (s : List Char) : List Char := lowerAfter false s

/-- A text in capital letters. -/
def upper (s : List Char) : List Char := s.flatMap upperChar

end Letter

end DeltaView
