import DeltaView.Proofs.Json.Basic
import DeltaView.Proofs.Value.Fields
import DeltaView.Value.Text

/-!
# Values and their trees

A value whose objects are in order is what its tree denotes.

* `Value.isInOrder`: every object of a value lists its fields by ascending name.
* `Value.floats`: the floats of a value, from left to right.
* `setFields_nil`: fields in order, put one after the other, are the fields themselves.
* **`ofJson_toJson`**: no value in order is changed by being written and read as a tree, be it a
  whole number or the float that is as large.
* `readable_toJson`: the tree of a value has a text that is read back where its floats do.
-/

namespace DeltaView

namespace Value

/-! ## Parts of values -/

instance (fields : List (String × Value)) : Decidable (FieldsAscend fields) :=
  inferInstanceAs (Decidable (fields.Pairwise fun f g => compare f.1 g.1 = .lt))

mutual

/-- Does every object list its fields by ascending name? -/
def isInOrder : Value → Bool
  | .array items => areInOrder items
  | .object fields => decide (FieldsAscend fields) && fieldsInOrder fields
  | _ => true

def areInOrder : List Value → Bool
  | [] => true
  | v :: vs => isInOrder v && areInOrder vs

def fieldsInOrder : List (String × Value) → Bool
  | [] => true
  | (_, v) :: rest => isInOrder v && fieldsInOrder rest

end

mutual

/-- The floats of a value, from left to right. -/
def floats : Value → List Double
  | .float x => [x]
  | .array items => floatsOfAll items
  | .object fields => floatsOfFields fields
  | _ => []

def floatsOfAll : List Value → List Double
  | [] => []
  | v :: vs => floats v ++ floatsOfAll vs

def floatsOfFields : List (String × Value) → List Double
  | [] => []
  | (_, v) :: rest => floats v ++ floatsOfFields rest

end

/-- A field that belongs behind all others is put there. -/
theorem setField_append {name : String} {v : Value} {fields : List (String × Value)}
    (h : ∀ f ∈ fields, compare f.1 name = .lt) :
    setField name v fields = fields ++ [(name, v)] := by
  induction fields with
  | nil => rfl
  | cons f fields ih =>
    obtain ⟨n, w⟩ := f
    rw [List.forall_mem_cons] at h
    unfold setField
    rw [Std.OrientedCmp.gt_of_lt h.1]
    show (n, w) :: setField name v fields = _
    rw [ih h.2]
    rfl

theorem setFields_append {fields into : List (String × Value)}
    (h : FieldsAscend (into ++ fields)) : setFields fields into = into ++ fields := by
  induction fields generalizing into with
  | nil => exact (List.append_nil into).symm
  | cons f fields ih =>
    have hbehind : ∀ g ∈ into, compare g.1 f.1 = .lt := fun g hg =>
      (List.pairwise_append.mp h).2.2 g hg f List.mem_cons_self
    show setFields fields (setField f.1 f.2 into) = _
    rw [setField_append hbehind]
    rw [List.append_cons] at h
    exact (ih h).trans (List.append_cons into f fields).symm

theorem setFields_nil {fields : List (String × Value)} (h : FieldsAscend fields) :
    setFields fields [] = fields := setFields_append h

/-! ## Reading what was written -/

mutual

/-- **A value in order is what its tree denotes.** -/
theorem ofJson_toJson : ∀ {v : Value}, v.isInOrder → ofJson v.toJson = v
  | .null, _ => rfl
  | .bool _, _ => rfl
  | .float _, _ => rfl
  | .string _, _ => rfl
  | .int n, _ => by
    rw [toJson, ofJson, Json.asInt64?_toInt]
  | .array items, h => by
    rw [isInOrder] at h
    rw [toJson, ofJson, ofItems_toItems h]
  | .object fields, h => by
    rw [isInOrder, Bool.and_eq_true, decide_eq_true_iff] at h
    rw [toJson, ofJson, ofMembers_toMembers h.2, ofFields, setFields_nil h.1]

theorem ofItems_toItems : ∀ {items : List Value}, areInOrder items →
    ofItems (toItems items) = items
  | [], _ => rfl
  | v :: vs, h => by
    rw [areInOrder, Bool.and_eq_true] at h
    rw [toItems, ofItems, ofJson_toJson h.1, ofItems_toItems h.2]

theorem ofMembers_toMembers : ∀ {fields : List (String × Value)}, fieldsInOrder fields →
    ofMembers (toMembers fields) = fields
  | [], _ => rfl
  | (name, v) :: rest, h => by
    rw [fieldsInOrder, Bool.and_eq_true] at h
    rw [toMembers, ofMembers, ofJson_toJson h.1, ofMembers_toMembers h.2]

end

/-! ## Texts -/

mutual

/-- The tree of a value has a text that is read back where the floats of the value do. -/
theorem readable_toJson : ∀ {v : Value}, (∀ x ∈ v.floats, x.ReadsBack) → v.toJson.Readable
  | .null, _ | .bool _, _ | .string _, _ => trivial
  | .int n, _ => Json.readable_int n
  | .float _, h => h _ List.mem_cons_self
  | .array _, h => itemsReadable_toItems h
  | .object _, h => membersReadable_toMembers h

theorem itemsReadable_toItems : ∀ {items : List Value}, (∀ x ∈ floatsOfAll items, x.ReadsBack) →
    Json.ItemsReadable (toItems items)
  | [], _ => trivial
  | _ :: _, h =>
    ⟨readable_toJson (List.forall_mem_append.mp h).1,
      itemsReadable_toItems (List.forall_mem_append.mp h).2⟩

theorem membersReadable_toMembers : ∀ {fields : List (String × Value)},
    (∀ x ∈ floatsOfFields fields, x.ReadsBack) → Json.MembersReadable (toMembers fields)
  | [], _ => trivial
  | (_, _) :: _, h =>
    ⟨readable_toJson (List.forall_mem_append.mp h).1,
      membersReadable_toMembers (List.forall_mem_append.mp h).2⟩

end

end Value

end DeltaView
