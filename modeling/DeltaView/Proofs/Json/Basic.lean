import DeltaView.Json.Basic
import DeltaView.Number.Numeral
import Mathlib.Algebra.Group.Int.Defs
import Mathlib.Data.List.Basic

/-!
# Interchange trees

Which trees have a text that is read back, and what the views of a tree give of whole numbers, lists
and members.

* `Double.ReadsBack`: a float is the one that its own text denotes.
* `Json.Readable`: 64 bits hold every whole number of a tree, and every float reads back.
* `asInt64?_eq_some`: the whole numbers that a view gives are those of 64 bits.
* `readList_map`: a list of written items is read back where each of them is.
* `readOr_eq`, `readOptional_eq`: what is read of an object depends on what it gives one name
  (`valuesOf`), and names it does not give leave the default.
-/

namespace DeltaView

/-! ## Numbers -/

/-- Does a whole number fit 64 bits? -/
def FitsInt64 (n : Int) : Prop := -2 ^ 63 ≤ n ∧ n < 2 ^ 63

theorem fitsInt64_toInt (k : Int64) : FitsInt64 k.toInt := ⟨k.le_toInt, k.toInt_lt⟩

/-- Is a float the one that its own text denotes? -/
def Double.ReadsBack (x : Double) : Prop :=
  (x.text?.bind Numeral.read?).bind Numeral.toDouble? = some x

instance (x : Double) : Decidable x.ReadsBack :=
  inferInstanceAs (Decidable ((x.text?.bind Numeral.read?).bind Numeral.toDouble? = some x))

namespace Json

/-! ## Trees that can be read back -/

mutual

/-- Do 64 bits hold every whole number, and does every float read back? -/
def Readable : Json → Prop
  | .int n => -2 ^ 63 ≤ n ∧ n < 2 ^ 64
  | .float x => x.ReadsBack
  | .array items => ItemsReadable items
  | .object members => MembersReadable members
  | _ => True

def ItemsReadable : List Json → Prop
  | [] => True
  | j :: js => Readable j ∧ ItemsReadable js

def MembersReadable : List (String × Json) → Prop
  | [] => True
  | (_, j) :: rest => Readable j ∧ MembersReadable rest

end

theorem itemsReadable_iff {items : List Json} :
    ItemsReadable items ↔ ∀ j ∈ items, j.Readable := by
  induction items with
  | nil => exact ⟨fun _ _ h => absurd h List.not_mem_nil, fun _ => trivial⟩
  | cons j js ih =>
    rw [List.forall_mem_cons, ← ih]
    exact Iff.rfl

theorem membersReadable_iff {members : List (String × Json)} :
    MembersReadable members ↔ ∀ m ∈ members, m.2.Readable := by
  induction members with
  | nil => exact ⟨fun _ _ h => absurd h List.not_mem_nil, fun _ => trivial⟩
  | cons m members ih =>
    rw [List.forall_mem_cons, ← ih]
    exact Iff.rfl

/-! ## Whole numbers -/

theorem readable_int (k : Int64) : Readable (.int k.toInt) :=
  ⟨k.le_toInt, Int.lt_trans k.toInt_lt (by decide)⟩

theorem asInt64?_eq_some {n : Int} {k : Int64} : (int n).asInt64? = some k ↔ k.toInt = n := by
  have hfits : (int64Min ≤ n && n < int64End) = true ↔ FitsInt64 n := by
    rw [Bool.and_eq_true, decide_eq_true_iff, decide_eq_true_iff]
    rfl
  unfold asInt64?
  simp only [hfits, Option.ite_none_right_eq_some, Option.some.injEq]
  constructor
  · rintro ⟨⟨hmin, hend⟩, rfl⟩
    exact Int64.toInt_ofInt_of_le hmin hend
  · rintro rfl
    exact ⟨fitsInt64_toInt k, k.ofInt_toInt⟩

theorem asInt64?_toInt (k : Int64) : (int k.toInt).asInt64? = some k := asInt64?_eq_some.mpr rfl

/-! ## Lists -/

variable {α : Type} {read? : Json → Option α} {toJson : α → Json}

/-- A list of written items is read back where each of them is. -/
theorem readList_map {items : List α} (h : ∀ x ∈ items, read? (toJson x) = some x) :
    readList read? (.array (items.map toJson)) = some items := by
  show (items.map toJson).mapM read? = some items
  induction items with
  | nil => rfl
  | cons x items ih =>
    rw [List.forall_mem_cons] at h
    rw [List.map_cons, List.mapM_cons, h.1, ih h.2]
    rfl

/-! ## Members -/

@[simp]
theorem valuesOf_nil (name : String) : valuesOf name [] = [] := rfl

@[simp]
theorem valuesOf_cons (name n : String) (v : Json) (members : List (String × Json)) :
    valuesOf name ((n, v) :: members) =
      if n = name then v :: valuesOf name members else valuesOf name members := by
  unfold valuesOf
  rw [List.filter_cons]
  by_cases h : n = name
  · rw [if_pos (beq_iff_eq.mpr h), if_pos h, List.map_cons]
  · rw [if_neg (fun hb => h (beq_iff_eq.mp hb)), if_neg h]

@[simp]
theorem valuesOf_append (name : String) (members members' : List (String × Json)) :
    valuesOf name (members ++ members') = valuesOf name members ++ valuesOf name members' := by
  unfold valuesOf
  rw [List.filter_append, List.map_append]

variable {name : String} {members : List (String × Json)} {v : Json}

theorem member?_eq {o : Option Json} (h : valuesOf name members = o.toList) :
    member? name members = some o := by
  unfold member?
  rw [h]
  cases o <;> rfl

theorem need?_eq (h : valuesOf name members = [v]) : need? name members = some v := by
  unfold need?
  rw [member?_eq (o := some v) h]
  rfl

/-- What is read of a member, with a default for one that is left out. -/
theorem readOr_eq (default : α) {o : Option Json} (h : valuesOf name members = o.toList) :
    readOr default read? name members = o.elim (some default) read? := by
  unfold readOr
  rw [member?_eq h]
  cases o <;> rfl

/-- What is read of a member that may be left out, by a reader that refuses `null`. -/
theorem readOptional_eq (hnull : read? .null = none) {o : Option α}
    (hread : ∀ x ∈ o, read? (toJson x) = some x)
    (h : valuesOf name members = (o.map toJson).toList) :
    readOptional read? name members = some o := by
  unfold readOptional
  rw [member?_eq h]
  cases o with
  | none => rfl
  | some x =>
    have hx := hread x rfl
    rw [Option.map_some]
    generalize toJson x = v at hx
    cases v with
    | null =>
      rw [hnull] at hx
      exact absurd hx (by simp)
    | _ => exact congrArg (Option.map some) hx

end Json

end DeltaView
