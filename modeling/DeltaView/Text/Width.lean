import DeltaView.Text.EmojiTable
import DeltaView.Text.Ligature

/-!
# Width of texts

The number of columns that a text takes where every column is as wide as a digit.

Most characters take the columns that they take alone. Some neighbours are drawn as one sign:
ligatures, an emoji and its skin tone, emoji with joiners between them, and signs that choose a
form for the character before them. A text is read from its end, so that each character sees the
signs after it that it may be drawn with.

* `Tail` is what a text begins with, as far as the character before it can tell, and `Rest` is a
  tail with signs of form before it.
* `Rest.step` adds a character, and `columnsOf` adds them all.
-/

namespace DeltaView

open Letter

/-! ## Forms -/

/-- The form that a sign chooses for the character before it. -/
inductive Form
  | text
  | emoji
  | wideQuote

def Form.ofChar? (c : Char) : Option Form :=
  if c.toNat == 0xFE0E then some .text
  else if c.toNat == 0xFE0F then some .emoji
  else if c.toNat == 0xFE01 then some .wideQuote
  else none

namespace Letter

def hasTwoForms (c : Char) : Bool := inRanges twoFormRanges c

/-- Emoji that have a narrow form too. Squared ideographs stay wide in any form. -/
def hasNarrowForm (c : Char) : Bool :=
  inRanges emojiRanges c && hasTwoForms c && !inRanges [(0x1F200, 0x1F2FF)] c

def isQuote (c : Char) : Bool := inRanges [(0x2018, 0x2019), (0x201C, 0x201D)] c

end Letter

/-! ## What follows a character -/

/-- What a text begins with, as far as the character before it can tell. -/
inductive Tail
  /-- Nothing that another character is drawn with. -/
  | plain
  | ligature (l : Ligature)
  /-- Kirat Rai vowels of one sign or two each; is there an odd number of signs? -/
  | vowels (odd : Bool)
  | emoji
  | tone
  /-- A joiner and an emoji, with the sign of a key cap before them or not. -/
  | joined (keycap : Bool)
  /-- Letters of flags, with a joiner and an emoji after them or not. -/
  | flag (joined : Bool) (letters : Nat)
  /-- The end of the tags of a flag, a joiner and an emoji. -/
  | tags (letters digits : Nat)

namespace Letter

def isFlagLetter (c : Char) : Bool := inRanges [(0x1F1E6, 0x1F1FF)] c
def isTone (c : Char) : Bool := inRanges [(0x1F3FB, 0x1F3FF)] c
def isTagLetter (c : Char) : Bool := inRanges [(0xE0061, 0xE007A)] c
def isTagDigit (c : Char) : Bool := inRanges [(0xE0030, 0xE0039)] c

end Letter

namespace Tail

/-- What a character begins that is drawn with none after it. -/
def ofChar (c : Char) : Tail :=
  if isTone c then tone
  else if isFlagLetter c then flag false 1
  else if inRanges emojiRanges c then emoji
  else if c.toNat == 0x16D67 then vowels true
  else if c.toNat == 0x16D68 then vowels false
  else ((Ligature.ofChar? c).map ligature).getD plain

/-- A vowel before an odd number of vowel signs makes a pair with the next one, and the sign aa
takes up the first vowel of any number. -/
def vowelBefore? (c : Char) (odd : Bool) : Option (Int × Tail) :=
  if c.toNat == 0x16D63 then some (0, plain)
  else if !odd then none
  else if c.toNat == 0x16D67 then some (0, vowels false)
  else if c.toNat == 0x16D68 then some (1, vowels true)
  else if c.toNat == 0x16D69 then some (0, plain)
  else none

/-- Before a joiner and an emoji, an emoji takes no column, and the end of one begins. -/
def joinedBefore? (c : Char) : Option (Int × Tail) :=
  if c.toNat == 0x20E3 then some (0, joined true)
  else if isFlagLetter c then some (1, flag true 1)
  else if isTone c then some (0, tone)
  else if c.toNat == 0xE007F then some (0, tags 0 0)
  else if inRanges emojiRanges c then some (0, emoji)
  else none

/-- Letters of flags make pairs, counted from the last one: the first letter of a pair joined to an
emoji takes back the column of the second, and gives it again when another pair begins. -/
def flagBefore? (c : Char) (afterJoiner : Bool) (letters : Nat) : Option (Int × Tail) :=
  if isFlagLetter c then
    some (if !afterJoiner then 1 else if letters % 2 == 1 then -1 else 3,
      flag afterJoiner (letters + 1))
  else if isJoiner c && 2 ≤ letters then some (0, joined false)
  else none

/-- The tags of a flag name a land by letters or three digits, and then a part of it. -/
def tagBefore? (c : Char) (letters digits : Nat) : Option (Int × Tail) :=
  if isTagLetter c && digits == 0 && letters < 6 then some (0, tags (letters + 1) 0)
  else if isTagDigit c && digits < 3 && (digits != 0 || letters ≤ 4) then
    some (0, tags letters (digits + 1))
  else if c.toNat == 0x1F3F4 && (digits == 3 || digits == 0 && 3 ≤ letters) then some (0, emoji)
  else none

/-- The columns that a character adds before a tail that it is drawn with, and the tail they
make. -/
def before? (c : Char) : Tail → Option (Int × Tail)
  | plain | joined true => none
  | ligature l => (l.before? c).map fun (n, l') => (n, (l'.map ligature).getD plain)
  | vowels odd => vowelBefore? c odd
  | emoji => if isJoiner c then some (0, joined false) else none
  | tone =>
    if inRanges toneBaseRanges c then some (0, emoji)
    else if isJoiner c then some (0, joined false)
    else none
  | joined false => joinedBefore? c
  | flag afterJoiner letters => flagBefore? c afterJoiner letters
  | tags letters digits => tagBefore? c letters digits

end Tail

/-- The forms that the signs after a character leave it. -/
structure Forms where
  emoji : Bool
  text : Bool
  wideQuote : Bool

namespace Forms

def none : Forms := ⟨false, false, false⟩

/-- The one form of a single sign. -/
def only : Form → Forms
  | .emoji => ⟨true, false, false⟩
  | .text => ⟨false, true, false⟩
  | .wideQuote => ⟨false, false, true⟩

/-- The forms left by one more sign: the form of an emoji needs its sign next to the character, the
other two are kept. -/
def insert (f : Form) (forms : Forms) : Forms :=
  match f with
  | .emoji => ⟨true, forms.text, forms.wideQuote⟩
  | .text => ⟨false, true, forms.wideQuote⟩
  | .wideQuote => ⟨false, forms.text, true⟩

/-- Has no sign been met? -/
def isNone (forms : Forms) : Bool := !(forms.emoji || forms.text || forms.wideQuote)

end Forms

/-- A tail, and the forms that the signs before it leave the next character. -/
structure Rest where
  forms : Forms
  tail : Tail

namespace Rest

/-- A rest before which no sign of form stands. -/
def ofTail (tail : Tail) : Rest := ⟨.none, tail⟩

/-- The end of a text. -/
def plain : Rest := ofTail .plain

/-- A rest before which a sign of form stands. Only the letters of a ligature can still be drawn
with what stands before that sign, and an emoji that it forms with a joined one; before all others
the last sign counts. -/
def choose (f : Form) (r : Rest) : Rest :=
  match f, r.tail with
  | _, .ligature l => ⟨r.forms.insert f, .ligature l⟩
  | .emoji, .joined keycap =>
    if r.forms.isNone then ⟨.only f, .joined keycap⟩ else ⟨.only f, .plain⟩
  | _, _ => ⟨.only f, .plain⟩

/-- What a character without a choice of form sees of a rest. -/
def unchosen (r : Rest) : Tail :=
  match r.tail with
  | .ligature l => .ligature l
  | tail => if r.forms.isNone then tail else .plain

/-- The columns of a character in the form that a sign after it chooses, and what they make. -/
def formed? (c : Char) (r : Rest) : Option (Int × Tail) :=
  if r.forms.emoji && hasTwoForms c then
    match r.tail with
    | .joined _ => some (0, .emoji)
    | _ => some (2, .emoji)
  else if r.forms.text && hasNarrowForm c then some (1, .plain)
  else if r.forms.wideQuote && isQuote c then some (2, .plain)
  else none

/-- The columns that a character adds before a rest, and the rest that it begins. -/
def step (c : Char) (r : Rest) : Int × Rest :=
  match formed? c r, Form.ofChar? c with
  | some (n, tail), _ => (n, ofTail tail)
  | none, some f => (0, choose f r)
  | none, none =>
    let (n, tail) := (r.unchosen.before? c).getD (columns c, Tail.ofChar c)
    (n, ofTail tail)

end Rest

/-- A character put before a text of so many columns. -/
def addColumns (c : Char) (n : Int × Rest) : Int × Rest :=
  let (m, r) := n.2.step c
  (n.1 + m, r)

/-- The columns of a text on one line. -/
def columnsOf (s : String) : Nat := (s.toList.foldr addColumns (0, Rest.plain)).1.toNat

end DeltaView
