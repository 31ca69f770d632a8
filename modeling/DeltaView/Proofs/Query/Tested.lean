import DeltaView.Proofs.Join.Filter
import DeltaView.Proofs.Plan.Rows
import DeltaView.Proofs.Value.Fields

/-!
# Joins of tested sources

What may be said of a join whose sources were tested before they are joined, each by a test of its
own. An outer join makes rows that lack a source, and which rows those are depends on what was
there to join; so a source that may be absent has to be tested once more.

* `SourceTests.Sound`: a test looks at the field of its source alone, and where the source may be
  absent it refuses every row without it, unless it refuses nothing.
* `Alike`, **`Alike.join`**: rows that are the same once all tests are made stay so under joins.
* `Kept`, **`Kept.join`**: so do rows that were tested on the way. A test of a source that is never
  absent needs not be made again.
-/

namespace DeltaView

open Delta (Same)

/-- Tests of the rows of sources, by label. -/
abbrev SourceTests := String → Value → Bool

namespace SourceTests

variable {test : SourceTests} {nullable labels known known' : List String} {v w : Value}

/-- Does a row pass the tests of some sources? -/
def passesAll (test : SourceTests) (labels : List String) (v : Value) : Bool :=
  labels.all fun a => test a v

/-- **Every test is about its own source**: it looks at the source's field alone, and where the
source may be absent it refuses rows that lack it, unless it is no test at all. -/
structure Sound (test : SourceTests) (nullable labels : List String) : Prop where
  named : "" ∉ labels
  ownField : ∀ a ∈ labels, ∀ v w : Value, v.field? a = w.field? a →
    v.field? "" = none → w.field? "" = none → test a v = test a w
  absent : ∀ a ∈ labels, a ∈ nullable →
    (∀ v, test a v = true) ∨ ∀ v : Value, v.field? a = none → test a v = false

theorem passesAll_append (test : SourceTests) (known known' : List String) (v : Value) :
    test.passesAll (known ++ known') v = (test.passesAll known v && test.passesAll known' v) :=
  List.all_append

theorem passesAll_congr (h : ∀ a ∈ known, test a v = test a w) :
    test.passesAll known v = test.passesAll known w := by
  unfold passesAll
  rw [Bool.eq_iff_iff, List.all_eq_true, List.all_eq_true]
  exact forall_congr' fun a => forall_congr' fun ha => by rw [h a ha]

/-- The answer of the tests of some sources where all of these are absent. -/
def ofAbsent (test : SourceTests) (known : List String) : Bool :=
  test.passesAll known (.object [])

/-- Tests of sources that may be absent are no tests at all if they pass where these are absent. -/
theorem Sound.untested (h : test.Sound nullable labels) (hsub : known ⊆ labels)
    (hn : known ⊆ nullable) (hpass : test.ofAbsent known = true) (v : Value) :
    test.passesAll known v = true := by
  refine List.all_eq_true.mpr fun a ha => ?_
  rcases h.absent a (hsub ha) (hn ha) with hall | hnone
  · exact hall v
  · have := List.all_eq_true.mp hpass a ha
    rw [hnone _ rfl] at this
    exact absurd this Bool.false_ne_true

/-! ## Tests of joined rows -/

/-- All rows are of some sources. -/
def Covered (labels : List String) (d : Delta Row) : Prop := ∀ e ∈ d, e.1.value.Covers labels

/-- The tests of the sources of both sides, as tests of the sides. -/
def sides (test : SourceTests) (known known' : List String) : JoinRule.SideTests where
  joined := fun r => test.passesAll (known ++ known') r.value
  left := fun r => test.passesAll known r.value
  right := fun r => test.passesAll known' r.value
  noLeft := test.ofAbsent known
  noRight := test.ofAbsent known'

section Sides

variable (h : test.Sound nullable labels) (hsub : known ⊆ labels) (hsub' : known' ⊆ labels)
  (hd : ∀ a ∈ known, a ∉ known')

include h hsub hsub' hd

/-- A pair passes the test of a source where the side with that source does. -/
theorem Sound.test_pair (hv : v.Covers known) (hw : w.Covers known') (a : String) :
    (a ∈ known → test a (Row.mergeValues (some v) (some w)) = test a v) ∧
      (a ∈ known' → test a (Row.mergeValues (some v) (some w)) = test a w) := by
  have hempty := hv.field?_eq_none fun hmem => h.named (hsub hmem)
  have hempty' := hw.field?_eq_none fun hmem => h.named (hsub' hmem)
  have hmerge : (Row.mergeValues (some v) (some w)).field? "" = none := by
    rw [Value.field?_merge hv hw, hempty, hempty']
    rfl
  constructor
  · intro ha
    refine h.ownField a (hsub ha) _ _ ?_ hmerge hempty
    rw [Value.field?_merge hv hw, hw.field?_eq_none (hd a ha)]
    rfl
  · intro ha
    refine h.ownField a (hsub' ha) _ _ ?_ hmerge hempty'
    rw [Value.field?_merge hv hw, hv.field?_eq_none fun hmem => hd a hmem ha]
    exact Option.or_none

/-- To a row of the left side without a partner the sources of the right side are absent. -/
theorem Sound.test_padLeft (hv : v.Covers known) (a : String) :
    (a ∈ known → test a (Row.mergeValues (some v) none) = test a v) ∧
      (a ∈ known' → test a (Row.mergeValues (some v) none) = test a (.object [])) := by
  have hempty := hv.field?_eq_none fun hmem => h.named (hsub hmem)
  have hpad := (Value.field?_padLeft hv "").trans hempty
  constructor
  · intro ha
    exact h.ownField a (hsub ha) _ _ (Value.field?_padLeft hv a) hpad hempty
  · intro ha
    refine h.ownField a (hsub' ha) _ _ ?_ hpad rfl
    rw [Value.field?_padLeft hv, hv.field?_eq_none fun hmem => hd a hmem ha]
    rfl

theorem Sound.test_padRight (hw : w.Covers known') (a : String) :
    (a ∈ known → test a (Row.mergeValues none (some w)) = test a (.object [])) ∧
      (a ∈ known' → test a (Row.mergeValues none (some w)) = test a w) := by
  have hempty := hw.field?_eq_none fun hmem => h.named (hsub' hmem)
  have hpad := (Value.field?_padRight hw "").trans hempty
  constructor
  · intro ha
    refine h.ownField a (hsub ha) _ _ ?_ hpad rfl
    rw [Value.field?_padRight hw, hw.field?_eq_none (hd a ha)]
    rfl
  · intro ha
    exact h.ownField a (hsub' ha) _ _ (Value.field?_padRight hw a) hpad hempty

/-- Tests of sources are tests of the sides of a join. -/
theorem Sound.splits {kind : JoinKind} {left right : Delta Row} (hl : Covered known left)
    (hr : Covered known' right) (hleft : kind.keepsLeft = true → known' ⊆ nullable)
    (hright : kind.keepsRight = true → known ⊆ nullable) :
    (test.sides known known').Splits kind left right where
  pair l hmem r hmem' := by
    have hpair := h.test_pair hsub hsub' hd (hl l hmem) (hr r hmem')
    exact (passesAll_append ..).trans (congrArg₂ _ (passesAll_congr fun a => (hpair a).1)
      (passesAll_congr fun a => (hpair a).2))
  padLeft l hmem := by
    have hpad := h.test_padLeft hsub hsub' hd (hl l hmem)
    exact (passesAll_append ..).trans (congrArg₂ _ (passesAll_congr fun a => (hpad a).1)
      (passesAll_congr fun a => (hpad a).2))
  padRight r hmem := by
    have hpad := h.test_padRight hsub hsub' hd (hr r hmem)
    refine (passesAll_append ..).trans (Eq.trans ?_ (Bool.and_comm ..))
    exact congrArg₂ _ (passesAll_congr fun a => (hpad a).1) (passesAll_congr fun a => (hpad a).2)
  untestedLeft hkeeps hpass l := h.untested hsub (hright hkeeps) hpass l.value
  untestedRight hkeeps hpass r := h.untested hsub' (hleft hkeeps) hpass r.value

end Sides

/-! ## Joins of tested rows -/

/-- **Rows of the same sources that are the same once all tests are made.** -/
structure Alike (test : SourceTests) (known : List String) (d d' : Delta Row) : Prop where
  covered : Covered known d
  covered' : Covered known d'
  same : Same (Delta.filterItems (fun r => test.passesAll known r.value) d')
    (Delta.filterItems (fun r => test.passesAll known r.value) d)

/-- **Rows `d'` that were tested on the way, against the same rows `d` untested**: once the tests of
all their sources are made they are the same, and the test of a source that is never absent leaves
`d'` as it is. -/
structure Kept (test : SourceTests) (nullable known : List String) (d d' : Delta Row) : Prop
    extends Alike test known d d' where
  passed : ∀ a ∈ known, a ∉ nullable →
    Same (Delta.filterItems (fun r => test a r.value) d') d'

/-- A delta that shows only rows that pass a test. -/
theorem same_filterItems {p : Row → Bool} {d e : Delta Row} (h : Same d e)
    (hall : ∀ x ∈ e, p x.1 = true) : Same (Delta.filterItems p d) d :=
  (h.filterItems p).trans ((Same.of_eq (Delta.filterItems_eq_self hall)).trans h.symm)

/-- The rows of one source. -/
theorem Alike.source {label : String} {d d' : Delta Row} (hd : Covered [label] d)
    (hd' : Covered [label] d') (h : Same (Delta.filterItems (fun r => test label r.value) d')
      (Delta.filterItems (fun r => test label r.value) d)) : Alike test [label] d d' := by
  have hone : (fun r : Row => test.passesAll [label] r.value) = fun r => test label r.value := by
    funext r
    exact Bool.and_true _
  refine ⟨hd, hd', ?_⟩
  rw [hone]
  exact h

/-- A filter that implies all tests leaves the same rows. -/
theorem Alike.filter {d d' : Delta Row} (h : Alike test known d d') {p : Value → Bool}
    (hp : ∀ v : Value, v.Covers known → p v = true → test.passesAll known v = true) :
    Same (Delta.filterItems (fun r => p r.value) d') (Delta.filterItems (fun r => p r.value) d) := by
  have htwice : ∀ d : Delta Row, Covered known d → Delta.filterItems (fun r => p r.value) d =
      Delta.filterItems (fun r => p r.value)
        (Delta.filterItems (fun r => test.passesAll known r.value) d) := fun d hd => by
    rw [Delta.filterItems_filterItems]
    refine Delta.filterItems_congr fun e he => ?_
    rw [Bool.eq_iff_iff, Bool.and_eq_true]
    exact ⟨fun h => ⟨hp _ (hd e he) h, h⟩, And.right⟩
  rw [htwice d' h.covered', htwice d h.covered]
  exact h.same.filterItems _

/-- The rows of one source, tested. -/
theorem Kept.source {label : String} {d d' : Delta Row} (hd : Covered [label] d)
    (hd' : Covered [label] d') (h : Same d' (Delta.filterItems (fun r => test label r.value) d)) :
    Kept test nullable [label] d d' := by
  have hpassed : Same (Delta.filterItems (fun r => test label r.value) d') d' :=
    same_filterItems h fun x hx => (List.mem_filter.mp hx).2
  refine ⟨.source hd hd' (hpassed.trans h), fun a ha _ => ?_⟩
  obtain rfl := List.mem_singleton.mp ha
  exact hpassed

theorem covered_table {rule : JoinRule} {left right : Delta Row} (hl : Covered known left)
    (hr : Covered known' right) : Covered (known ++ known') (rule.table left right) := by
  intro e he
  rcases JoinRule.mem_table_cases he with ⟨l, hl', r, hr', heq⟩ | ⟨-, l, hl', heq⟩ |
    ⟨-, r, hr', heq⟩
  · rw [heq]
    exact Value.covers_merge (hl l hl') (hr r hr')
  · rw [heq]
    exact Value.covers_padLeft (hl l hl')
  · rw [heq]
    exact Value.covers_padRight (hr r hr')

section Joins

variable {d d' e e' : Delta Row} (rule : JoinRule) (hs : test.Sound nullable labels)
  (hsub : known ⊆ labels) (hsub' : known' ⊆ labels) (hdisjoint : ∀ a ∈ known, a ∉ known')
  (hleft : rule.kind.keepsLeft = true → known' ⊆ nullable)
  (hright : rule.kind.keepsRight = true → known ⊆ nullable)

include hs hsub hsub' hdisjoint hleft hright

/-- **Joins of rows that are the same once all tests are made** are so as well. -/
theorem Alike.join (h : Alike test known d d') (h' : Alike test known' e e') :
    Alike test (known ++ known') (rule.table d e) (rule.table d' e') := by
  have hsplit := hs.splits hsub hsub' hdisjoint h.covered h'.covered hleft hright
  have hsplit' := hs.splits hsub hsub' hdisjoint h.covered' h'.covered' hleft hright
  refine ⟨covered_table h.covered h'.covered, covered_table h.covered' h'.covered', ?_⟩
  -- Both are the join of the tested sides, where sides that are not tested are the same.
  refine (rule.filter_table hsplit').trans (Same.trans ?_ (rule.filter_table hsplit).symm)
  exact JoinRule.table_congr _ h.same h'.same

/-- **A join of tested rows** against the join of the same rows untested. -/
theorem Kept.join (h : Kept test nullable known d d') (h' : Kept test nullable known' e e') :
    Kept test nullable (known ++ known') (rule.table d e) (rule.table d' e') := by
  refine ⟨h.toAlike.join rule hs hsub hsub' hdisjoint hleft hright h'.toAlike, ?_⟩
  intro a ha hfirm
  rcases List.mem_append.mp ha with ha | ha
  · -- Rows that lack the source are not among those that are kept.
    refine same_filterItems
      (JoinRule.table_congr rule (h.passed a ha hfirm).symm (.refl e')) fun x hx => ?_
    rcases JoinRule.mem_table_cases hx with ⟨l, hl, r, hr, heq⟩ | ⟨-, l, hl, heq⟩ |
      ⟨hkeeps, -⟩
    · rw [heq]
      obtain ⟨hl, hpass⟩ := List.mem_filter.mp hl
      exact ((hs.test_pair hsub hsub' hdisjoint (h.covered' l hl) (h'.covered' r hr) a).1
        ha).trans hpass
    · rw [heq]
      obtain ⟨hl, hpass⟩ := List.mem_filter.mp hl
      exact ((hs.test_padLeft hsub hsub' hdisjoint (h.covered' l hl) a).1 ha).trans hpass
    · exact absurd (hright hkeeps ha) hfirm
  · refine same_filterItems
      (JoinRule.table_congr rule (.refl d') (h'.passed a ha hfirm).symm) fun x hx => ?_
    rcases JoinRule.mem_table_cases hx with ⟨l, hl, r, hr, heq⟩ | ⟨hkeeps, -⟩ |
      ⟨-, r, hr, heq⟩
    · rw [heq]
      obtain ⟨hr, hpass⟩ := List.mem_filter.mp hr
      exact ((hs.test_pair hsub hsub' hdisjoint (h.covered' l hl) (h'.covered' r hr) a).2
        ha).trans hpass
    · exact absurd (hleft hkeeps ha) hfirm
    · rw [heq]
      obtain ⟨hr, hpass⟩ := List.mem_filter.mp hr
      exact ((hs.test_padRight hsub hsub' hdisjoint (h'.covered' r hr) a).2 ha).trans hpass

end Joins

/-- The tests of sources that are never absent leave the rows as they are. -/
theorem Kept.passedAll {d d' : Delta Row}
    (h : Kept test nullable known d d') (firm : List String) (hf : firm ⊆ known)
    (hn : ∀ a ∈ firm, a ∉ nullable) :
    Same (Delta.filterItems (fun r => test.passesAll firm r.value) d') d' := by
  induction firm with
  | nil => exact .of_eq (Delta.filterItems_eq_self fun _ _ => rfl)
  | cons a firm ih =>
    obtain ⟨ha, hrest⟩ := List.cons_subset.mp hf
    rw [List.forall_mem_cons] at hn
    have hcons : Delta.filterItems (fun r => test.passesAll (a :: firm) r.value) d' =
        Delta.filterItems (fun r => test.passesAll firm r.value)
          (Delta.filterItems (fun r => test a r.value) d') :=
      (Delta.filterItems_filterItems _ _ _).symm
    rw [hcons]
    exact ((h.passed a ha hn.1).filterItems _).trans (ih hrest hn.2)

end SourceTests

end DeltaView
