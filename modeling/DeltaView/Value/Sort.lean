import DeltaView.Text.Case
import DeltaView.Value.Order

/-!
# Sorting rules

How one term of an ORDER BY compares values. Numbers compare by size alone, so an integer and a
float of the same size are even. Nulls are placed first or last whatever the direction. Texts
compare by their characters, or by their small letters with the characters deciding between even
ones. Arrays compare item by item in ascending direction; the direction of the rule turns the
outcome once, at the top.
-/

namespace DeltaView

inductive Direction where
  | asc | desc
deriving DecidableEq

inductive NullPlace where
  | first | last
deriving DecidableEq

inductive TextOrder where
  | lexical | locale
deriving DecidableEq

structure SortRule where
  direction : Direction
  nulls : NullPlace
  text : TextOrder
deriving DecidableEq

/-- Ascending, nulls first, texts by their characters. -/
def SortRule.standard : SortRule := ⟨.asc, .first, .lexical⟩

instance : Inhabited SortRule := ⟨SortRule.standard⟩

/-- Lexicographic comparison of characters by code point. -/
def compareChars : List Char → List Char → Ordering
  | [], [] => .eq
  | [], _ :: _ => .lt
  | _ :: _, [] => .gt
  | c :: cs, d :: ds => (compare c.toNat d.toNat).then (compareChars cs ds)

namespace TextOrder

def compare : TextOrder → String → String → Ordering
  | .lexical, s, t => Ord.compare s t
  | .locale, s, t =>
    (compareChars (s.toList.flatMap Letter.lowerChar) (t.toList.flatMap Letter.lowerChar)).then
      (Ord.compare s t)

end TextOrder

namespace SortRule

/-- The outcome for a null against another value. -/
def nullOutcome (r : SortRule) : Ordering :=
  match r.nulls with
  | .first => .lt
  | .last => .gt

mutual

/-- Compares two values in ascending direction. -/
def ascending (r : SortRule) : Value → Value → Ordering
  | .null, .null => .eq
  | .string s, .string t => r.text.compare s t
  | .array as, .array bs => ascendingItems r as bs
  | a, b =>
    if a.isNull then r.nullOutcome
    else if b.isNull then r.nullOutcome.swap
    else (Value.numericCompare? a b).getD (Value.cmp a b)

def ascendingItems (r : SortRule) : List Value → List Value → Ordering
  | [], [] => .eq
  | [], _ :: _ => .lt
  | _ :: _, [] => .gt
  | a :: as, b :: bs => (ascending r a b).then (ascendingItems r as bs)

end

/-- Compares two values under a rule. -/
def compare (r : SortRule) (a b : Value) : Ordering :=
  if a.isNull || b.isNull then ascending r a b
  else match r.direction with
    | .asc => ascending r a b
    | .desc => (ascending r a b).swap

/-- Compares the terms of two tuples one after the other; a missing term is null. -/
def compareTerms : List SortRule → List Value → List Value → Ordering
  | [], _, _ => .eq
  | r :: rules, as, bs =>
    (r.compare (as.headD .null) (bs.headD .null)).then (compareTerms rules as.tail bs.tail)

/-- Compares two tuples by their terms, and then by length. -/
def compareTuples (rules : List SortRule) (as bs : List Value) : Ordering :=
  (compareTerms rules as bs).then (Ord.compare as.length bs.length)

end SortRule

end DeltaView
