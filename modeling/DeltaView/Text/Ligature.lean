import DeltaView.Text.Range
import DeltaView.Text.WidthTable

/-!
# Ligatures

The columns of single characters, and letters of some scripts that are drawn as one sign.

* `Letter.columns` is the width of a character that stands alone.
* A text is read from its end. `Ligature` is the end of letters that may be drawn as one,
  `Ligature.ofChar?` begins such an end, and `Ligature.before?` tells what the character before it
  adds.
-/

namespace DeltaView

namespace Letter

/-- The columns of a character that stands alone: three for one Khmer sign, two for a wide
character, none for one that is drawn into another, one for any other. -/
def columns (c : Char) : Nat :=
  if c.toNat < 0xA0 then 1
  else if inRanges zeroWidthRanges c then 0
  else if c.toNat == 0x17D8 then 3
  else if inRanges wideRanges c then 2
  else 1

/-- The character without a column that joins its neighbours. -/
def isJoiner (c : Char) : Bool := c.toNat == 0x200D

/-- A mark that is not shown. -/
def isUnseenMark (c : Char) : Bool :=
  inRanges [(0x34F, 0x34F), (0x17B4, 0x17B5), (0x180B, 0x180D), (0x180F, 0x180F),
    (0xFE00, 0xFE0F), (0xE0100, 0xE01EF)] c

/-! ## Letters -/

def isAlef (c : Char) : Bool :=
  inRanges [(0x622, 0x623), (0x625, 0x625), (0x627, 0x627), (0x671, 0x673), (0x675, 0x675),
    (0x773, 0x774), (0x870, 0x882)] c

def isLam (c : Char) : Bool :=
  inRanges [(0x644, 0x644), (0x6B5, 0x6B8), (0x76A, 0x76A), (0x8A6, 0x8A6), (0x8C7, 0x8C7)] c

/-- A mark on an Arabic letter that leaves it joined to the next one. -/
def isArabicMark (c : Char) : Bool := columns c == 0 && !inRanges partingRanges c

/-- Khmer letters that have a form below another letter. -/
def isKhmerLetter (c : Char) : Bool :=
  inRanges [(0x1780, 0x1782), (0x1784, 0x1787), (0x1789, 0x178C), (0x178E, 0x1793),
    (0x1795, 0x1798), (0x179B, 0x179D), (0x17A0, 0x17A0), (0x17A2, 0x17A2), (0x17A7, 0x17A7),
    (0x17AB, 0x17AC), (0x17AF, 0x17AF)] c

def isTifinaghConsonant (c : Char) : Bool := inRanges [(0x2D31, 0x2D65), (0x2D6F, 0x2D6F)] c

end Letter

open Letter

/-- The end of letters that may be drawn as one, as far as it has been read. A flag tells whether a
joiner stands before it. -/
inductive Ligature
  | alef
  | lamed (joined : Bool)
  | khmerLetter
  | ya (joined : Bool)
  /-- A Buginese vowel, a joiner and ya. -/
  | vowelYa
  | tifinagh (joined : Bool)
  /-- The sign that links Tifinagh consonants, and a consonant. -/
  | linkedTifinagh
  | lisuTone
  | orkhonI (joined : Bool)

namespace Ligature

/-- The end that a letter begins. -/
def ofChar? (c : Char) : Option Ligature :=
  if isAlef c then some alef
  else if c.toNat == 0x5DC then some (lamed false)
  else if isKhmerLetter c then some khmerLetter
  else if c.toNat == 0x1A10 then some (ya false)
  else if isTifinaghConsonant c then some (tifinagh false)
  else if inRanges [(0xA4FC, 0xA4FD)] c then some lisuTone
  else if c.toNat == 0x10C03 then some (orkhonI false)
  else none

/-- An end with a joiner before it. -/
def join : Ligature → Ligature
  | lamed _ => lamed true
  | ya _ => ya true
  | tifinagh _ => tifinagh true
  | orkhonI _ => orkhonI true
  | l => l

/-- The columns that a letter adds before an end that it is drawn with, and the longer end if more
can join it. -/
def letterBefore? (c : Char) : Ligature → Option (Int × Option Ligature)
  | alef => if isLam c then some (0, none) else none
  | lamed joined => if joined && c.toNat == 0x5D0 then some (0, none) else none
  | khmerLetter => if c.toNat == 0x17D2 then some (-1, none) else none
  | ya joined => if joined && c.toNat == 0x1A17 then some (0, some vowelYa) else none
  | vowelYa => if c.toNat == 0x1A15 then some (0, none) else none
  | tifinagh joined =>
    if c.toNat == 0x2D7F then some (1, some linkedTifinagh)
    else if joined && isTifinaghConsonant c then some (0, none)
    else none
  | linkedTifinagh => if isTifinaghConsonant c then some (-1, none) else none
  | lisuTone => if inRanges [(0xA4F8, 0xA4FB)] c then some (0, none) else none
  | orkhonI joined => if joined && c.toNat == 0x10C32 then some (0, none) else none

/-- The same of any character: marks between two Arabic letters, and joiners and marks that are not
shown between two others, leave them drawn as one. -/
def before? (c : Char) (l : Ligature) : Option (Int × Option Ligature) :=
  match l with
  | alef => if isArabicMark c then some (0, some alef) else letterBefore? c alef
  | l =>
    if isJoiner c then some (0, some l.join)
    else if isUnseenMark c then some (0, some l)
    else letterBefore? c l

end Ligature

end DeltaView
