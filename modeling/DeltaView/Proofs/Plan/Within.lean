import DeltaView.Proofs.Plan.Level
import DeltaView.Proofs.Plan.Wiring
import Mathlib.Logic.Relation

/-!
# Plans within plans

The plan of a query is made of the plans of its sources and of the steps of its level, one on top of
the other. All of them are computed at some node where the plan is.

* `Plan.Within`: a plan is another one or what that is built on.
* `Level.plan?_within`: what SELECT makes of the rows of a level, and its sources, are within its
  plan.
* `Query.HasLevel`, **`HasLevel.within`**: so are the plans of all levels of a query.
* **`Computes.within`**: a node for a plan comes with nodes for all plans within.
-/

namespace DeltaView

namespace Plan

/-- The plans that a plan takes its rows from. -/
def inputs : Plan → List Plan
  | .scan _ => []
  | .named _ p => [p]
  | .join _ _ _ p q => [p, q]
  | .filter _ p => [p]
  | .filterBy _ p => [p]
  | .project _ p => [p]
  | .group _ p => [p]
  | .distinct p => [p]
  | .rank _ _ p => [p]
  | .output p => [p]

/-- **One plan is another one or what that is built on.** -/
def Within : Plan → Plan → Prop := Relation.ReflTransGen fun p q => p ∈ q.inputs

namespace Within

variable {p q r : Plan}

theorem refl (p : Plan) : p.Within p := Relation.ReflTransGen.refl

theorem trans (h : p.Within q) (h' : q.Within r) : p.Within r := Relation.ReflTransGen.trans h h'

theorem of_mem (h : p ∈ q.inputs) : p.Within q := Relation.ReflTransGen.single h

theorem foldl {α : Type} {f : Plan → α → Plan} (h : ∀ p a, p ∈ (f p a).inputs) (items : List α)
    (p : Plan) : p.Within (items.foldl f p) := by
  induction items generalizing p with
  | nil => exact .refl p
  | cons a items ih => exact (of_mem (h p a)).trans (ih (f p a))

end Within

end Plan

/-! ## Levels -/

namespace Level

/-- The plan of the joined sources of a level. -/
def planSources? (q : Query) : Except Error Plan := do
  let main ← Plan.ofSource? q.source
  Plan.ofJoins? main [q.source.label] q.joins

variable {q : Query} {known : List String} {sources rows p : Plan}

theorem planFilters_within (q : Query) (sources : Plan) : sources.Within (q.planFilters sources) :=
  (Plan.Within.foldl (fun _ _ => List.mem_cons_self) q.filters sources).trans
    (.foldl (fun _ _ => List.mem_cons_self) q.rowFilters _)

theorem planSelect?_within (h : q.planSelect? rows = .ok p) : rows.Within p := by
  unfold planSelect? at h
  split at h
  · obtain ⟨terms, -, rfl⟩ := map_eq_ok.mp h
    exact .of_mem List.mem_cons_self
  · obtain ⟨projection, -, rfl⟩ := map_eq_ok.mp h
    exact .of_mem List.mem_cons_self

theorem planHaving?_within (h : q.planHaving? rows = .ok p) : rows.Within p := by
  obtain ⟨conditions, -, h⟩ := bind_eq_ok.mp h
  obtain rfl := Except.ok.inj h
  exact (Plan.Within.foldl (fun _ _ => List.mem_cons_self) conditions rows).trans
    (.foldl (fun _ _ => List.mem_cons_self) q.rowHaving _)

theorem planOrder?_within (h : q.planOrder? rows = .ok p) : rows.Within p := by
  obtain ⟨-, rfl, -⟩ | ⟨-, terms, rfl, -⟩ := planOrder?_eq_ok h
  · exact .refl _
  · exact .of_mem List.mem_cons_self

/-- **What SELECT makes of the rows that a level keeps is within its plan**, and so are its
sources. -/
theorem plan?_within (h : q.plan? known sources = .ok p) :
    ∃ selected, q.planSelect? (q.planFilters sources) = .ok selected ∧ selected.Within p ∧
      sources.Within p := by
  obtain ⟨-, -, h⟩ := plan?_eq_ok.mp h
  obtain ⟨selected, hs, h⟩ := bind_eq_ok.mp h
  obtain ⟨kept, hk, h⟩ := bind_eq_ok.mp h
  obtain ⟨ordered, ho, h⟩ := bind_eq_ok.mp h
  obtain rfl := Except.ok.inj h
  have hdistinct : kept.Within (if q.isDistinct then .distinct kept else kept) := by
    split
    · exact .of_mem List.mem_cons_self
    · exact .refl kept
  have hselected : selected.Within (.output ordered) :=
    (planHaving?_within hk).trans (hdistinct.trans ((planOrder?_within ho).trans
      (.of_mem List.mem_cons_self)))
  exact ⟨selected, hs, hselected,
    (planFilters_within q sources).trans ((planSelect?_within hs).trans hselected)⟩

end Level

namespace Plan

/-- The sources of a join are within its plan. -/
theorem ofJoins?_within {joins : List (Join Source)} {main p : Plan} {known : List String}
    (h : ofJoins? main known joins = .ok p) :
    main.Within p ∧ ∀ j ∈ joins, ∃ q, ofSource? j.source = .ok q ∧ q.Within p := by
  induction joins generalizing main known with
  | nil =>
    obtain rfl := Except.ok.inj h
    exact ⟨.refl main, List.forall_mem_nil _⟩
  | cons j joins ih =>
    obtain ⟨kind, source, left, right⟩ := j
    obtain ⟨joined, hjoined, h⟩ := bind_eq_ok.mp h
    obtain ⟨rows, hrows, h⟩ := bind_eq_ok.mp h
    obtain ⟨mainKey, joinedKey, rfl, -⟩ := join?_eq_ok hrows
    obtain ⟨hjoin, hrest⟩ := ih h
    refine ⟨(Within.of_mem List.mem_cons_self).trans hjoin, List.forall_mem_cons.mpr ⟨?_, hrest⟩⟩
    exact ⟨joined, hjoined,
      (Within.of_mem (List.mem_cons_of_mem main List.mem_cons_self)).trans hjoin⟩

/-- The sources of a query, one by one and joined, are within its plan. -/
theorem ofQuery?_within {q : Query} {p : Plan} (h : ofQuery? q = .ok p) :
    (∃ sources, q.planSources? = .ok sources ∧ sources.Within p) ∧
      ∀ s ∈ q.sources, ∃ r, ofSource? s = .ok r ∧ r.Within p := by
  obtain ⟨-, main, sources, hmain, hsources, hplan⟩ := ofQuery?_eq_ok.mp h
  obtain ⟨-, -, -, hwithin⟩ := Level.plan?_within hplan
  obtain ⟨hm, hj⟩ := ofJoins?_within hsources
  refine ⟨⟨sources, bind_eq_ok.mpr ⟨main, hmain, hsources⟩, hwithin⟩, fun s hs => ?_⟩
  rcases List.mem_cons.mp hs with rfl | hs
  · exact ⟨main, hmain, hm.trans hwithin⟩
  · obtain ⟨j, hjoin, rfl⟩ := List.mem_map.mp hs
    obtain ⟨r, hr, hwr⟩ := hj j hjoin
    exact ⟨r, hr, hwr.trans hwithin⟩

end Plan

/-! ## Queries -/

/-- The levels of a query: its own, and those of the queries that it reads. -/
inductive Query.HasLevel : Query → Query → Prop
  | self (q : Query) : HasLevel q q
  | source {q r l : Query} {label : String} (hs : Source.subquery r label ∈ q.sources)
      (h : HasLevel r l) : HasLevel q l

theorem Query.HasLevel.trans {q r l : Query} (h : q.HasLevel r) (h' : r.HasLevel l) :
    q.HasLevel l := by
  induction h with
  | self => exact h'
  | source hs _ ih => exact .source hs (ih h')

/-- **The plan of every level of a query is within its plan.** -/
theorem Query.HasLevel.within {q l : Query} (h : q.HasLevel l) {p : Plan}
    (hp : Plan.ofQuery? q = .ok p) : ∃ r, Plan.ofQuery? l = .ok r ∧ r.Within p := by
  induction h generalizing p with
  | self q => exact ⟨p, hp, .refl p⟩
  | source hs _ ih =>
    obtain ⟨named, hnamed, hwithin⟩ := (Plan.ofQuery?_within hp).2 _ hs
    obtain ⟨r, hr, rfl⟩ := map_eq_ok.mp hnamed
    obtain ⟨t, ht, hwt⟩ := ih hr
    exact ⟨t, ht, hwt.trans ((Plan.Within.of_mem List.mem_cons_self).trans hwithin)⟩

/-! ## Nodes -/

namespace Graph

variable {functions : RowFunctions} {inputs : String → List Nat} {g : Graph}
  {ins : Nat → List Nat} {p q : Plan} {n : Nat}

theorem Computes.input (h : Computes functions inputs g ins q n) (hp : p ∈ q.inputs) :
    ∃ m, Computes functions inputs g ins p m := by
  cases q with
  | scan name => cases hp
  | join kind mainKey joinedKey q q' =>
    obtain ⟨m, m', hm, hm', -⟩ := h
    rcases List.mem_cons.mp hp with rfl | hp
    · exact ⟨m, hm⟩
    · obtain rfl := List.mem_singleton.mp hp
      exact ⟨m', hm'⟩
  | group terms q =>
    obtain rfl := List.mem_singleton.mp hp
    obtain ⟨m, k, hm, -⟩ := h
    exact ⟨m, hm⟩
  | distinct q =>
    obtain rfl := List.mem_singleton.mp hp
    obtain ⟨m, k, hm, -⟩ := h
    exact ⟨m, hm⟩
  | _ =>
    obtain rfl := List.mem_singleton.mp hp
    obtain ⟨m, hm, -⟩ := h
    exact ⟨m, hm⟩

/-- **Where a plan is computed, all plans within are.** -/
theorem Computes.within (h : Computes functions inputs g ins q n) (hp : p.Within q) :
    ∃ m, Computes functions inputs g ins p m := by
  induction hp using Relation.ReflTransGen.head_induction_on with
  | refl => exact ⟨n, h⟩
  | head hstep _ ih =>
    obtain ⟨m, hm⟩ := ih
    exact hm.input hstep

end Graph

end DeltaView
