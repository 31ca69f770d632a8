import DeltaView.Join.Pair
import DeltaView.Query.Selected
import Mathlib.Data.List.Nodup

/-!
# Fields of values

What a field of an object is after fields were put into it, and what the fields of joined rows are.

* `lookup_setField`, `lookup_setFields`: the fields put in go before those that were there.
  `lookup_setFields_last`: and the last one of a name before the others.
* `Value.Covers`: an object that lists its fields by ascending name and has none but those of some
  sources. Rows of a source have such values, and a join of two such rows has one again.
* **`field?_merge`**: a joined row has the fields of both sides.
-/

namespace DeltaView

namespace Value

/-! ## Putting fields -/

theorem lookup_setField (name n : String) (v : Value) (fields : List (String × Value)) :
    lookup n (setField name v fields) = if name = n then some v else lookup n fields := by
  induction fields with
  | nil => rfl
  | cons f fields ih =>
    obtain ⟨m, w⟩ := f
    unfold setField
    split
    · rfl
    · rename_i h
      obtain rfl := Std.LawfulEqOrd.eq_of_compare h
      simp only [lookup]
      by_cases hn : name = n
      · rw [if_pos hn, if_pos hn]
      · rw [if_neg hn, if_neg hn, if_neg hn]
    · rename_i h
      simp only [lookup]
      rw [ih]
      by_cases hm : m = n
      · subst hm
        have hne : name ≠ m := by
          rintro rfl
          exact absurd h (by rw [Std.ReflOrd.compare_self]; decide)
        rw [if_pos rfl, if_neg hne, if_pos rfl]
      · rw [if_neg hm, if_neg hm]

theorem lookup_eq_none {n : String} {fields : List (String × Value)}
    (h : n ∉ fields.map (·.1)) : lookup n fields = none := by
  induction fields with
  | nil => rfl
  | cons f fields ih =>
    obtain ⟨m, w⟩ := f
    rw [List.map_cons, List.mem_cons, not_or] at h
    unfold lookup
    rw [if_neg (Ne.symm h.1), ih h.2]

/-- Of fields with different names each is found. -/
theorem lookup_of_mem {fields : List (String × Value)} (h : (fields.map (·.1)).Nodup) {n : String}
    {v : Value} (hm : (n, v) ∈ fields) : lookup n fields = some v := by
  induction fields with
  | nil => cases hm
  | cons f fields ih =>
    obtain ⟨hf, hrest⟩ := List.nodup_cons.mp h
    rcases List.mem_cons.mp hm with rfl | hm
    · exact if_pos rfl
    · have hne : f.1 ≠ n := fun he => hf (List.mem_map.mpr ⟨_, hm, he.symm⟩)
      exact (if_neg hne).trans (ih hrest hm)

/-- The fields put in go before those that were there. -/
theorem lookup_setFields {fields : List (String × Value)} (h : (fields.map (·.1)).Nodup)
    (n : String) (into : List (String × Value)) :
    lookup n (setFields fields into) = (lookup n fields).or (lookup n into) := by
  induction fields generalizing into with
  | nil => rfl
  | cons f fields ih =>
    obtain ⟨m, v⟩ := f
    rw [List.map_cons, List.nodup_cons] at h
    show lookup n (setFields fields (setField m v into)) = _
    rw [ih h.2, lookup_setField]
    simp only [lookup]
    by_cases hm : m = n
    · subst hm
      rw [if_pos rfl, if_pos rfl, lookup_eq_none h.1]
      rfl
    · rw [if_neg hm, if_neg hm]

theorem lookup_append (n : String) (fields fields' : List (String × Value)) :
    lookup n (fields ++ fields') = (lookup n fields).or (lookup n fields') := by
  induction fields with
  | nil => rfl
  | cons f fields ih =>
    obtain ⟨m, v⟩ := f
    rw [List.cons_append, lookup, lookup, ih]
    split <;> rfl

theorem lookup_map {α : Type} (n : String) (name : α → String) (value : α → Value) (items : List α) :
    lookup n (items.map fun x => (name x, value x)) =
      (items.find? fun x => name x == n).map value := by
  induction items with
  | nil => rfl
  | cons x items ih =>
    rw [List.map_cons, lookup, ih, List.find?_cons]
    by_cases hx : name x = n
    · rw [if_pos hx, beq_iff_eq.mpr hx]
      rfl
    · rw [if_neg hx, beq_eq_false_iff_ne.mpr hx]

/-- **Of the fields put in, the last one of a name stays**, and goes before one that was there. -/
theorem lookup_setFields_last (n : String) (fields into : List (String × Value)) :
    lookup n (setFields fields into) = (lookup n fields.reverse).or (lookup n into) := by
  induction fields generalizing into with
  | nil => rfl
  | cons f fields ih =>
    obtain ⟨m, v⟩ := f
    show lookup n (setFields fields (setField m v into)) = _
    rw [ih, lookup_setField, List.reverse_cons, lookup_append, Option.or_assoc]
    refine congrArg _ ?_
    rw [lookup]
    split <;> rfl

/-- A field of an object is the last one of its name. -/
theorem field?_ofFields (n : String) (fields : List (String × Value)) :
    (ofFields fields).field? n = lookup n fields.reverse :=
  (lookup_setFields_last n fields []).trans Option.or_none

theorem field?_ofFields_of_mem {fields : List (String × Value)} (h : (fields.map (·.1)).Nodup)
    {n : String} {v : Value} (hm : (n, v) ∈ fields) : (ofFields fields).field? n = some v := by
  rw [field?_ofFields]
  refine lookup_of_mem ?_ (List.mem_reverse.mpr hm)
  rw [List.map_reverse]
  exact List.nodup_reverse.mpr h

/-! ## Fields in order -/

/-- The names of the fields ascend. -/
def FieldsAscend (fields : List (String × Value)) : Prop :=
  fields.Pairwise fun f g => compare f.1 g.1 = .lt

theorem FieldsAscend.nil : FieldsAscend [] := List.Pairwise.nil

theorem FieldsAscend.nodup {fields : List (String × Value)} (h : FieldsAscend fields) :
    (fields.map (·.1)).Nodup := by
  refine List.pairwise_map.mpr (List.Pairwise.imp (fun {f g} hlt heq => ?_) h)
  rw [heq, Std.ReflOrd.compare_self] at hlt
  exact absurd hlt (by decide)

theorem mem_setField {name : String} {v : Value} {fields : List (String × Value)}
    {f : String × Value} (h : f ∈ setField name v fields) : f.1 = name ∨ f ∈ fields := by
  induction fields with
  | nil => exact Or.inl (congrArg Prod.fst (List.mem_singleton.mp h))
  | cons g fields ih =>
    obtain ⟨m, w⟩ := g
    unfold setField at h
    split at h
    · rcases List.mem_cons.mp h with rfl | h
      · exact Or.inl rfl
      · exact Or.inr h
    · rcases List.mem_cons.mp h with rfl | h
      · exact Or.inl rfl
      · exact Or.inr (List.mem_cons_of_mem _ h)
    · rcases List.mem_cons.mp h with rfl | h
      · exact Or.inr List.mem_cons_self
      · exact (ih h).imp_right (List.mem_cons_of_mem _)

theorem FieldsAscend.setField (name : String) (v : Value) {fields : List (String × Value)}
    (h : FieldsAscend fields) : FieldsAscend (setField name v fields) := by
  induction fields with
  | nil => exact List.pairwise_singleton _ _
  | cons f fields ih =>
    obtain ⟨m, w⟩ := f
    obtain ⟨hm, hrest⟩ := List.pairwise_cons.mp h
    unfold Value.setField
    split
    · rename_i hlt
      refine List.pairwise_cons.mpr ⟨fun g hg => ?_, h⟩
      rcases List.mem_cons.mp hg with rfl | hg
      · exact hlt
      · exact Std.TransCmp.lt_trans hlt (hm g hg)
    · rename_i heq
      obtain rfl := Std.LawfulEqOrd.eq_of_compare heq
      exact List.pairwise_cons.mpr ⟨hm, hrest⟩
    · rename_i hgt
      refine List.pairwise_cons.mpr ⟨fun g hg => ?_, ih hrest⟩
      rcases mem_setField hg with hg | hg
      · rw [hg]
        exact Std.OrientedCmp.lt_of_gt hgt
      · exact hm g hg

theorem FieldsAscend.setFields (fields : List (String × Value)) {into : List (String × Value)}
    (h : FieldsAscend into) : FieldsAscend (setFields fields into) := by
  induction fields generalizing into with
  | nil => exact h
  | cons f fields ih => exact ih (h.setField f.1 f.2)

/-! ## Values of the rows of sources -/

/-- An object in order whose fields are some of the sources. -/
def Covers (labels : List String) (v : Value) : Prop :=
  ∃ fields, v = .object fields ∧ FieldsAscend fields ∧ ∀ n, n ∉ labels → v.field? n = none

theorem Covers.field?_eq_none {labels : List String} {v : Value} (h : v.Covers labels) {n : String}
    (hn : n ∉ labels) : v.field? n = none := by
  obtain ⟨fields, -, -, hnone⟩ := h
  exact hnone n hn

theorem covers_named (label : String) (v : Value) : Covers [label] (.object [(label, v)]) :=
  ⟨_, rfl, List.pairwise_singleton _ _, fun n hn => by
    rw [List.mem_singleton] at hn
    exact if_neg (Ne.symm hn)⟩

/-! ## Joined rows -/

/-- The value of a joined row, from the fields of its sides. -/
theorem mergeValues_eq {left right : Option Value} {l r : List (String × Value)}
    (hl : Row.sideFields? left = some l) (hr : Row.sideFields? right = some r) :
    Row.mergeValues left right = .object (setFields r (setFields l [])) := by
  unfold Row.mergeValues
  rw [hl, hr]

variable {labels labels' : List String} {v w : Value}

/-- **A joined row has the fields of both sides.** -/
theorem field?_merge (hv : v.Covers labels) (hw : w.Covers labels') (n : String) :
    (Row.mergeValues (some v) (some w)).field? n = (w.field? n).or (v.field? n) := by
  obtain ⟨l, rfl, hl, -⟩ := hv
  obtain ⟨r, rfl, hr, -⟩ := hw
  rw [mergeValues_eq rfl rfl]
  show lookup n _ = _
  rw [lookup_setFields hr.nodup, lookup_setFields hl.nodup]
  show (lookup n r).or ((lookup n l).or none) = _
  rw [Option.or_none]
  rfl

theorem field?_padLeft (hv : v.Covers labels) (n : String) :
    (Row.mergeValues (some v) none).field? n = v.field? n := by
  obtain ⟨l, rfl, hl, -⟩ := hv
  rw [mergeValues_eq rfl rfl]
  show lookup n (setFields l []) = _
  rw [lookup_setFields hl.nodup]
  exact Option.or_none

theorem field?_padRight (hw : w.Covers labels') (n : String) :
    (Row.mergeValues none (some w)).field? n = w.field? n := by
  obtain ⟨r, rfl, hr, -⟩ := hw
  rw [mergeValues_eq rfl rfl]
  show lookup n (setFields r []) = _
  rw [lookup_setFields hr.nodup]
  exact Option.or_none

theorem covers_merge (hv : v.Covers labels) (hw : w.Covers labels') :
    (Row.mergeValues (some v) (some w)).Covers (labels ++ labels') := by
  have hfield : ∀ n, n ∉ labels ++ labels' →
      (Row.mergeValues (some v) (some w)).field? n = none := fun n hn => by
    rw [List.mem_append, not_or] at hn
    rw [field?_merge hv hw, hv.field?_eq_none hn.1, hw.field?_eq_none hn.2]
    rfl
  obtain ⟨l, rfl, -⟩ := hv
  obtain ⟨r, rfl, -⟩ := hw
  exact ⟨_, mergeValues_eq rfl rfl, (FieldsAscend.nil.setFields l).setFields r, hfield⟩

theorem covers_padLeft (hv : v.Covers labels) :
    (Row.mergeValues (some v) none).Covers (labels ++ labels') := by
  have hfield : ∀ n, n ∉ labels ++ labels' →
      (Row.mergeValues (some v) none).field? n = none := fun n hn => by
    rw [List.mem_append, not_or] at hn
    rw [field?_padLeft hv, hv.field?_eq_none hn.1]
  obtain ⟨l, rfl, -⟩ := hv
  exact ⟨_, mergeValues_eq rfl rfl, FieldsAscend.nil.setFields l, hfield⟩

theorem covers_padRight (hw : w.Covers labels') :
    (Row.mergeValues none (some w)).Covers (labels ++ labels') := by
  have hfield : ∀ n, n ∉ labels ++ labels' →
      (Row.mergeValues none (some w)).field? n = none := fun n hn => by
    rw [List.mem_append, not_or] at hn
    rw [field?_padRight hw, hw.field?_eq_none hn.2]
  obtain ⟨r, rfl, -⟩ := hw
  exact ⟨_, mergeValues_eq rfl rfl, FieldsAscend.nil.setFields r, hfield⟩

/-! ## Selected fields -/

/-- What SELECT made of a row is found in it. -/
theorem selected_withSelected (row v : Value) : (row.withSelected v).selected = v := by
  unfold withSelected
  split
  · show (lookup selectedField (Value.setField selectedField v _)).getD .null = v
    rw [lookup_setField, if_pos rfl]
    rfl
  · rfl

end Value

end DeltaView
