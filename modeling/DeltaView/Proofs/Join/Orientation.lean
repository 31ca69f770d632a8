import DeltaView.Join.Condition
import DeltaView.Proofs.Expr.Conjunct

/-!
# Sides of a join condition

A condition is fit for a join if one of its sides reads one source that is there before the join and
the other one reads the joined source alone. It may be written in either order, and is turned so
that the main side comes first.

A path names a source by its first name. One that is empty, or begins with an empty name, names
none.

* `Expr.Names`, `Expr.NamesOnly`: an expression names a source in some path, or names just one.
* `label?_eq_some_iff`: the label of an expression is the one source that it names.
* `eval_congr_of_names`: the value of an expression depends on the sources that it names.
* **`orient_eq_ok`**: a condition is taken if it suits the join in one of the two orders, and comes
  out in that order. `orient_swap`: the order in which it was written makes no difference.
* **`unsuited_of_orient`**: what is wrong with a condition that is refused is one of four things.
-/

namespace DeltaView

namespace Expr

/-! ## The sources that an expression names -/

/-- Some path of an expression begins with the name of a source. -/
inductive Names (label : String) : Expr → Prop
  | ref (h : label ≠ "") (rest : List String) : Names label (.ref (label :: rest))
  | call (name : String) {args : List Expr} {e : Expr} (he : e ∈ args) (h : Names label e) :
    Names label (.call name args)
  | aggregate (name : String) {args : List Expr} {e : Expr} (he : e ∈ args) (h : Names label e) :
    Names label (.aggregate name args)

/-- An expression names one source and no other. -/
def NamesOnly (label : String) (e : Expr) : Prop := ∀ a, e.Names a ↔ a = label

variable {a b : String} {rest : List String}

mutual

theorem names_of_mem_refs (ha : a ≠ "") : ∀ {e : Expr}, a :: rest ∈ e.refs → e.Names a
  | .literal _, h => absurd h List.not_mem_nil
  | .ref _, h => by
    obtain rfl := List.mem_singleton.mp h
    exact .ref ha rest
  | .call name _, h => by
    obtain ⟨e, he, hn⟩ := exists_names_of_mem_refsOfAll ha h
    exact .call name he hn
  | .aggregate name _, h => by
    obtain ⟨e, he, hn⟩ := exists_names_of_mem_refsOfAll ha h
    exact .aggregate name he hn
  | .unknown, h => absurd h List.not_mem_nil

theorem exists_names_of_mem_refsOfAll (ha : a ≠ "") :
    ∀ {es : List Expr}, a :: rest ∈ refsOfAll es → ∃ e ∈ es, e.Names a
  | [], h => absurd h List.not_mem_nil
  | e :: _, h => by
    rcases List.mem_append.mp h with h | h
    · exact ⟨e, List.mem_cons_self, names_of_mem_refs ha h⟩
    · obtain ⟨e', he', hn⟩ := exists_names_of_mem_refsOfAll ha h
      exact ⟨e', List.mem_cons_of_mem _ he', hn⟩

end

theorem mem_refsOfAll {path : List String} {es : List Expr} {e : Expr} (he : e ∈ es)
    (h : path ∈ e.refs) : path ∈ refsOfAll es := by
  induction es with
  | nil => exact absurd he List.not_mem_nil
  | cons e' es ih =>
    rcases List.mem_cons.mp he with rfl | he
    · exact List.mem_append_left _ h
    · exact List.mem_append_right _ (ih he)

theorem Names.exists_mem_refs {e : Expr} (h : e.Names a) : a ≠ "" ∧ ∃ rest, a :: rest ∈ e.refs := by
  induction h with
  | ref h rest => exact ⟨h, rest, List.mem_cons_self⟩
  | call _ he _ ih =>
    obtain ⟨hne, rest, hrest⟩ := ih
    exact ⟨hne, rest, mem_refsOfAll he hrest⟩
  | aggregate _ he _ ih =>
    obtain ⟨hne, rest, hrest⟩ := ih
    exact ⟨hne, rest, mem_refsOfAll he hrest⟩

theorem mem_labels {e : Expr} : a ∈ e.labels ↔ e.Names a := by
  constructor
  · intro h
    obtain ⟨hmem, hne⟩ := List.mem_filter.mp h
    obtain ⟨path, hpath, hhead⟩ := List.mem_filterMap.mp hmem
    obtain ⟨rest, rfl⟩ := List.head?_eq_some_iff.mp hhead
    exact names_of_mem_refs (of_decide_eq_true hne) hpath
  · intro h
    obtain ⟨hne, rest, hrest⟩ := h.exists_mem_refs
    exact mem_labels_of_mem_refs hrest hne

/-- **The label of an expression is the one source that it names.** -/
theorem label?_eq_some_iff {e : Expr} : e.label? = some a ↔ e.NamesOnly a := by
  constructor
  · intro h b
    obtain ⟨ha, hall⟩ := label?_eq_some h
    refine ⟨fun hb => hall b (mem_labels.mpr hb), ?_⟩
    rintro rfl
    exact mem_labels.mp ha
  · intro h
    have hall : ∀ b ∈ e.labels, b = a := fun b hb => (h b).mp (mem_labels.mp hb)
    have ha : a ∈ e.labels := mem_labels.mpr ((h a).mpr rfl)
    unfold label?
    cases hlabels : e.labels with
    | nil =>
      rw [hlabels] at ha
      exact absurd ha List.not_mem_nil
    | cons b rest =>
      rw [hlabels, List.forall_mem_cons] at hall
      obtain ⟨rfl, hrest⟩ := hall
      exact if_pos (List.all_eq_true.mpr fun c hc => beq_iff_eq.mpr (hrest c hc))

theorem NamesOnly.eq {e : Expr} (ha : e.NamesOnly a) (hb : e.NamesOnly b) : a = b :=
  (hb a).mp ((ha a).mpr rfl)

theorem NamesOnly.ne_empty {e : Expr} (h : e.NamesOnly a) : a ≠ "" :=
  ((h a).mpr rfl).exists_mem_refs.1

/-- **The value of an expression depends on the sources that it names.** A path that names none
could only read a field without a name. -/
theorem eval_congr_of_names {e : Expr} {v w : Value}
    (h : ∀ a, e.Names a → v.field? a = w.field? a) (hempty : v.field? "" = w.field? "") :
    e.eval v = e.eval w := eval_congr fun path hp => by
  rcases path with _ | ⟨a, rest⟩
  · rfl
  · by_cases ha : a = ""
    · exact ha ▸ field_congr rest hempty
    · exact field_congr rest (h a (names_of_mem_refs ha hp))

end Expr

namespace JoinCondition

/-! ## Conditions that suit a join -/

/-- The main side of a condition names one source that is there before the join, and its joined side
the joined source alone. The joined name is never one that is there. -/
structure Suits (c : JoinCondition) (available : List String) (label : String) : Prop where
  main : ∃ a ∈ available, a ≠ label ∧ c.main.NamesOnly a
  joined : c.joined.NamesOnly label

/-- What is wrong with a condition: a side that names no single source, one source on both sides, a
left side that is not there before the join, or a right side that is not the joined source. -/
inductive Unsuited (left right : Expr) (available : List String) (label : String) : Error → Prop
  | noSource (h : (∀ a, ¬ left.NamesOnly a) ∨ ∀ b, ¬ right.NamesOnly b) :
    Unsuited left right available label .conditionWithoutSource
  | sameSource {a : String} (hleft : left.NamesOnly a) (hright : right.NamesOnly a) :
    Unsuited left right available label (.conditionSameSource a)
  | unavailable {a b : String} (hleft : left.NamesOnly a) (hright : right.NamesOnly b)
    (hne : a ≠ b) (h : a ∉ available ∨ a = label) :
    Unsuited left right available label (.conditionUnavailable a)
  | notJoined {a b : String} (hleft : left.NamesOnly a) (hright : right.NamesOnly b) (hne : a ≠ b)
    (ha : a ∈ available) (hb : b ≠ label) :
    Unsuited left right available label (.conditionNotJoined label)

variable {left right : Expr} {available : List String} {label : String} {c : JoinCondition}
  {e : Error}

theorem isAvailable_some {a : String} :
    isAvailable available label (some a) = true ↔ a ∈ available ∧ a ≠ label := by
  rw [isAvailable, Bool.and_eq_true, bne_iff_ne, List.contains_iff_mem, and_comm]

theorem isAvailable_label? {e : Expr} : isAvailable available label e.label? = true ↔
    ∃ a ∈ available, a ≠ label ∧ e.NamesOnly a := by
  cases ha : e.label? with
  | none =>
    refine iff_of_false nofun fun ⟨a, _, _, hn⟩ => ?_
    cases ha.symm.trans (Expr.label?_eq_some_iff.mpr hn)
  | some a =>
    have hn := Expr.label?_eq_some_iff.mp ha
    rw [isAvailable_some]
    constructor
    · rintro ⟨hmem, hne⟩
      exact ⟨a, hmem, hne, hn⟩
    · rintro ⟨b, hmem, hne, hb⟩
      obtain rfl := hn.eq hb
      exact ⟨hmem, hne⟩

theorem suits_iff : (isAvailable available label left.label? && right.label? == some label) = true ↔
    Suits ⟨left, right⟩ available label := by
  rw [Bool.and_eq_true, isAvailable_label?, beq_iff_eq, Expr.label?_eq_some_iff]
  exact ⟨fun ⟨hmain, hjoined⟩ => ⟨hmain, hjoined⟩, fun ⟨hmain, hjoined⟩ => ⟨hmain, hjoined⟩⟩

/-- No condition suits a join in both orders. -/
theorem Suits.not_swapped (h : Suits ⟨left, right⟩ available label) :
    ¬ Suits ⟨right, left⟩ available label := fun h' => by
  obtain ⟨a, -, hne, ha⟩ := h.main
  exact hne (ha.eq h'.joined)

/-- **A condition is taken if it suits the join in one of the two orders**, and comes out in it. -/
theorem orient_eq_ok : orient left right available label = .ok c ↔
    c.Suits available label ∧ (c = ⟨left, right⟩ ∨ c = ⟨right, left⟩) := by
  unfold orient
  dsimp only
  rw [Bool.and_comm (left.label? == _)]
  constructor
  · intro h
    split_ifs at h with h1 h2
    · obtain rfl := Except.ok.inj h
      exact ⟨suits_iff.mp h1, Or.inl rfl⟩
    · obtain rfl := Except.ok.inj h
      exact ⟨suits_iff.mp h2, Or.inr rfl⟩
  · rintro ⟨h, rfl | rfl⟩
    · rw [if_pos (suits_iff.mpr h)]
    · rw [if_neg fun h1 => h.not_swapped (suits_iff.mp h1), if_pos (suits_iff.mpr h)]

/-- The order in which a condition was written makes no difference. -/
theorem orient_swap : orient left right available label = .ok c ↔
    orient right left available label = .ok c := by
  rw [orient_eq_ok, orient_eq_ok, or_comm]

theorem unsuited_fault {a b : String} (hleft : left.NamesOnly a) (hright : right.NamesOnly b)
    (h : ¬ Suits ⟨left, right⟩ available label) :
    Unsuited left right available label (fault available label (some a) (some b)) := by
  rw [fault]
  split_ifs with hab hgone hjoined
  · exact .sameSource hleft (hab ▸ hright)
  · rw [Bool.not_eq_true', ← Bool.not_eq_true, isAvailable_some, not_and_or, not_not] at hgone
    exact .unavailable hleft hright hab hgone
  all_goals rw [Bool.not_eq_true', Bool.not_eq_false, isAvailable_some] at hgone
  · exact .notJoined hleft hright hab hgone.1 hjoined
  · -- The last answer would be for a condition that suits the join.
    rw [not_not] at hjoined
    exact absurd ⟨⟨a, hgone.1, hgone.2, hleft⟩, hjoined ▸ hright⟩ h

/-- **What is wrong with a condition that is refused.** -/
theorem unsuited_of_orient (h : orient left right available label = .error e) :
    Unsuited left right available label e := by
  have hnone : ∀ e : Expr, e.label? = none → ∀ a, ¬ e.NamesOnly a := fun e he a hn => by
    cases he.symm.trans (Expr.label?_eq_some_iff.mpr hn)
  have hrefused : ¬ Suits ⟨left, right⟩ available label := fun hs => by
    cases (orient_eq_ok.mpr ⟨hs, Or.inl rfl⟩).symm.trans h
  unfold orient at h
  dsimp only at h
  split_ifs at h
  obtain rfl := Except.error.inj h
  cases hl : left.label? with
  | none => exact .noSource (Or.inl (hnone left hl))
  | some a =>
    cases hr : right.label? with
    | none => exact .noSource (Or.inr (hnone right hr))
    | some b =>
      exact unsuited_fault (Expr.label?_eq_some_iff.mp hl) (Expr.label?_eq_some_iff.mp hr) hrefused

end JoinCondition

end DeltaView
