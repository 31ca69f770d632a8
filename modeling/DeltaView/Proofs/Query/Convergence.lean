import DeltaView.Proofs.Expr.Arrangement
import DeltaView.Proofs.Query.Residual

/-!
# Passes converge

Pushdown at a level moves what it can at once: what it leaves behind, no source can test, and no
later pass makes a source that can. So from the first pass on nothing enters the sources of the
query from above, after the second pass nothing enters their sources, and so on down to the depth of
the passes.

* `moveFilters_eq_self_iff`: when there is nothing to move at a level.
* **`pushDown_pushDown`**: pushdown at one level is done after one time.
* **`pushDown_reviseBy_eq_self`**: and stays done over sources that can test no more.
* **`pass_eq_self_iff`**: a pass changes nothing where it changes neither the level nor its sources.
* **`passes_converge`**: after one pass for the query and one for each level below it, further
  passes change nothing.
-/

namespace DeltaView

namespace Level

variable {q : Query} {es : List Expr}

/-! ## What a move leaves -/

theorem isResidual_of_mem_clauseOf {isResidual : Bool} {f : Clause}
    (h : f ∈ clauseOf es isResidual) : f.isResidual = isResidual := by
  obtain ⟨expr, -, rfl⟩ := Option.map_eq_some_iff.mp (Option.mem_toList.mp h)
  rfl

theorem filter_plain_moveFilters (q : Query) :
    q.moveFilters.filters.filter (!·.isResidual) = clauseOf (q.remaining q.fresh) false := by
  rw [moveFilters_eq, filters_reviseBy, List.filter_append, List.filter_append,
    List.filter_eq_self.mpr fun f hf => by rw [isResidual_of_mem_clauseOf hf]; rfl,
    List.filter_eq_nil_iff.mpr fun f hf => by rw [isResidual_of_mem_clauseOf hf]; decide,
    List.filter_eq_nil_iff.mpr fun f hf => by rw [(List.mem_filter.mp hf).2]; decide,
    List.append_nil, List.append_nil]

theorem filter_residual_moveFilters (q : Query) :
    q.moveFilters.filters.filter (·.isResidual) =
      clauseOf (q.repeated q.fresh) true ++ q.filters.filter (·.isResidual) := by
  rw [moveFilters_eq, filters_reviseBy, List.filter_append, List.filter_append,
    List.filter_eq_nil_iff.mpr fun f hf => by rw [isResidual_of_mem_clauseOf hf]; decide,
    List.filter_eq_self.mpr fun f hf => by rw [isResidual_of_mem_clauseOf hf],
    List.filter_eq_self.mpr fun f hf => (List.mem_filter.mp hf).2, List.nil_append]

/-- What may still be moved after a move is what has stayed. -/
theorem fresh_moveFilters (q : Query) : q.moveFilters.fresh = q.remaining q.fresh := by
  show Expr.conjunctsOfAll (List.map _ (q.moveFilters.filters.filter (!·.isResidual))) = _
  rw [filter_plain_moveFilters]
  exact conjuncts_clauseOf (fun c hc => Expr.conjuncts_of_mem_all _ (mem_remaining.mp hc).1) false

/-- The sources with conjuncts that stay. -/
def refusedSources (q : Query) (es : List Expr) : List String :=
  (Expr.conditionedSources es).filter fun a => !q.moves es a

theorem remaining_eq_arranged (q : Query) (es : List Expr) :
    q.remaining es = Expr.arranged (q.refusedSources es) es := rfl

theorem nodup_refusedSources (q : Query) (es : List Expr) : (q.refusedSources es).Nodup :=
  (Expr.nodup_conditionedSources es).filter _

/-! ## Levels with nothing to move -/

/-- A source that takes a condition is not what it was. -/
theorem takesCondition_of_takeCondition_eq {s : Source} (h : s.takeCondition es = s) :
    s.takesCondition es = false := by
  rcases s.takeCondition_cases es with ⟨e, -, hf, -⟩ | ⟨-, hstays⟩
  · rw [h] at hf
    exact absurd (Source.eq_testing_of_filtered? hf).symm (s.testing_ne e)
  · exact hstays

theorem takeCondition_of_not_takesCondition {s : Source} (h : s.takesCondition es = false) :
    s.takeCondition es = s := by
  rcases s.takeCondition_cases es with ⟨-, -, -, htakes⟩ | ⟨hstays, -⟩
  · exact absurd (htakes.symm.trans h) (by simp)
  · exact hstays

theorem moves_eq_false (h : ∀ s ∈ q.sources, s.takesCondition es = false) (label : String) :
    q.moves es label = false := by
  refine List.any_eq_false.mpr fun s hs htakes => ?_
  rw [h s hs, Bool.and_false] at htakes
  exact Bool.false_ne_true htakes

/-- Where no source takes a condition, the conjuncts are arranged and put into one clause. -/
theorem moveFilters_of_refused (h : ∀ s ∈ q.sources, s.takesCondition q.fresh = false) :
    q.moveFilters = { q with
      filters := clauseOf (Expr.arranged (Expr.conditionedSources q.fresh) q.fresh) false ++
        q.filters.filter (·.isResidual) } := by
  have hrefused : q.refusedSources q.fresh = Expr.conditionedSources q.fresh :=
    List.filter_eq_self.mpr fun a _ => by
      rw [moves_eq_false h]
      rfl
  have hrepeated : q.repeated q.fresh = [] := by
    refine List.eq_nil_iff_forall_not_mem.mpr fun c hc => ?_
    obtain ⟨-, a, -, hmoves, -⟩ := mem_repeated.mp hc
    exact Bool.false_ne_true ((moves_eq_false h a).symm.trans hmoves)
  have hnone : clauseOf [] true = [] := rfl
  rw [moveFilters_eq, remaining_eq_arranged, hrefused, hrepeated, hnone, List.append_nil,
    reviseBy_of_sources fun s hs => takeCondition_of_not_takesCondition (h s hs)]

/-- **There is nothing to move at a level** if no source takes a condition and the conditions are
arranged. -/
theorem moveFilters_eq_self_iff : q.moveFilters = q ↔
    (∀ s ∈ q.sources, s.takesCondition q.fresh = false) ∧
      clauseOf (Expr.arranged (Expr.conditionedSources q.fresh) q.fresh) false ++
        q.filters.filter (·.isResidual) = q.filters := by
  constructor
  · intro h
    have hrefused : ∀ s ∈ q.sources, s.takesCondition q.fresh = false := fun s hs =>
      takesCondition_of_takeCondition_eq (sources_of_reviseBy_eq (q.moveFilters_eq.symm.trans h) s hs)
    exact ⟨hrefused, congrArg Level.filters ((moveFilters_of_refused hrefused).symm.trans h)⟩
  · rintro ⟨hrefused, hfilters⟩
    rw [moveFilters_of_refused hrefused, hfilters]

theorem takesCondition_congr {s : Source} {es es' : List Expr}
    (h : Expr.conditionsOn s.label es = Expr.conditionsOn s.label es') :
    s.takesCondition es = s.takesCondition es' := by
  unfold Source.takesCondition Expr.conditionOn?
  rw [h]

/-- **What has stayed at a level stays there.** -/
theorem moveFilters_moveFilters (q : Query) : q.moveFilters.moveFilters = q.moveFilters := by
  have hnodup := q.nodup_refusedSources q.fresh
  refine moveFilters_eq_self_iff.mpr ⟨fun t ht => ?_, ?_⟩
  · rw [moveFilters_eq, sources_reviseBy] at ht
    obtain ⟨s, hs, rfl⟩ := List.mem_map.mp ht
    rw [(Source.testsAs_takeCondition q.fresh s).takesCondition, fresh_moveFilters,
      remaining_eq_arranged]
    have hgroup := Expr.conditionsOn_arranged hnodup s.label q.fresh
    split at hgroup
    · -- The source has refused these conjuncts before.
      rename_i hrefused
      rw [takesCondition_congr hgroup, ← Bool.not_eq_true]
      intro htakes
      have hmoves := (List.mem_filter.mp hrefused).2
      rw [moves_of_takesCondition hs htakes] at hmoves
      exact Bool.false_ne_true hmoves
    · -- There are none of these conjuncts left.
      have hnone : s.takesCondition (Expr.arranged (q.refusedSources q.fresh) q.fresh) =
          s.takesCondition [] := takesCondition_congr hgroup
      exact hnone
  · rw [fresh_moveFilters, remaining_eq_arranged,
      Expr.conditionedSources_arranged hnodup fun a ha => (List.mem_filter.mp ha).1,
      Expr.arranged_arranged hnodup, filter_residual_moveFilters, ← remaining_eq_arranged,
      ← List.append_assoc]
    rfl

/-! ## Pushdown at one level -/

/-- Pushdown at a level without joins puts its conditions into one clause. -/
theorem pushDown_of_single (h : q.joins = []) : q.pushDown = q.joinFilters := by
  unfold pushDown
  split
  · rename_i hempty
    unfold joinFilters
    rw [List.isEmpty_iff.mp hempty]
    rfl
  · rw [h]
    rfl

theorem joinFilters_reviseBy (f : Source → Source) : (q.reviseBy f q.filters).joinFilters =
    q.joinFilters.reviseBy f q.joinFilters.filters := by
  unfold joinFilters
  rw [filters_reviseBy]
  split
  · split
    · rfl
    · rfl
  · rfl

/-- Conditions are put into one clause, or left as they are. -/
theorem joinFilters_cases (q : Query) :
    q.joinFilters = q ∨ ∃ f : Clause, q.joinFilters = { q with filters := [f] } := by
  unfold joinFilters
  split
  · split
    · exact Or.inr ⟨_, rfl⟩
    · exact Or.inl rfl
  · exact Or.inl rfl

theorem joinFilters_joinFilters (q : Query) : q.joinFilters.joinFilters = q.joinFilters := by
  rcases q.joinFilters_cases with hsame | ⟨f, hone⟩
  · rw [hsame, hsame]
  · rw [hone]
    unfold joinFilters
    split
    · exact if_neg (Nat.lt_irrefl 1)
    · rfl

/-- **Pushdown at one level is done after one time.** -/
theorem pushDown_pushDown (q : Query) : q.pushDown.pushDown = q.pushDown := by
  by_cases h : q.joins = []
  · have hjoined : q.joinFilters.joins = [] := by
      rw [joinFilters_eq_reviseBy]
      exact (joins_reviseBy_eq_nil q _ _).mpr h
    rw [pushDown_of_single h, pushDown_of_single hjoined, joinFilters_joinFilters]
  · have hjoined : q.moveFilters.joins ≠ [] := (not_congr (joins_reviseBy_eq_nil q _ _)).mpr h
    rw [pushDown_of_joins h, pushDown_of_joins hjoined, moveFilters_moveFilters]

/-- **Pushdown that is done at a level is done over other sources as well**, if these take no
condition that the sources of the level have refused. -/
theorem pushDown_reviseBy_eq_self (h : q.pushDown = q) {f : Source → Source}
    (hf : q.joins ≠ [] → ∀ s ∈ q.sources, s.takesCondition q.fresh = false →
      (f s).takesCondition q.fresh = false) :
    (q.reviseBy f q.filters).pushDown = q.reviseBy f q.filters := by
  by_cases hj : q.joins = []
  · rw [pushDown_of_single hj] at h
    rw [pushDown_of_single ((joins_reviseBy_eq_nil q f _).mpr hj), joinFilters_reviseBy, h]
  · rw [pushDown_of_joins hj, moveFilters_eq_self_iff] at h
    rw [pushDown_of_joins ((not_congr (joins_reviseBy_eq_nil q f _)).mpr hj),
      moveFilters_eq_self_iff]
    refine ⟨?_, h.2⟩
    rw [sources_reviseBy, List.forall_mem_map]
    exact fun s hs => hf hj s hs (h.1 s hs)

end Level

/-! ## Passes -/

namespace Query

variable {q : Query} {depth : Nat}

theorem pushDown_pass (depth : Nat) (q : Query) : (pass depth q).pushDown = pass depth q := by
  rw [pass_eq, Level.pushDown_pushDown]

/-- **A pass changes nothing** where pushdown changes neither the level nor its sources. -/
theorem pass_eq_self_iff : pass depth q = q ↔
    q.pushDown = q ∧ ∀ s ∈ q.sources, s.pushDown depth = s := by
  constructor
  · intro h
    have hdone : q.pushDown = q := by
      rw [← h, pushDown_pass]
    -- The level is done over the sources as they are before conditions are moved to them.
    have hrevised : pass depth q = q.reviseBy (·.pushDown depth) q.filters :=
      (pass_eq depth q).trans (Level.pushDown_reviseBy_eq_self hdone fun _ s _ hs =>
        ((s.testsAs_pushDown depth).takesCondition q.fresh).trans hs)
    exact ⟨hdone, Level.sources_of_reviseBy_eq (hrevised.symm.trans h)⟩
  · rintro ⟨hdone, hsources⟩
    rw [pass_of_sources hsources, hdone]

/-- After the first pass, further passes work on the sources of the query alone. -/
theorem iterate_pass (h : q.pushDown = q) (n : Nat) :
    (pass depth)^[n] q = q.reviseBy (·.pushDown depth)^[n] q.filters := by
  have htests : ∀ (n : Nat) (s : Source), ((·.pushDown depth)^[n] s).TestsAs s := by
    intro n s
    induction n with
    | zero => exact .refl s
    | succ n ih =>
      rw [Function.iterate_succ_apply']
      exact (Source.testsAs_pushDown _ depth).trans ih
  induction n with
  | zero => exact (Level.reviseBy_eq_self fun _ _ => rfl).symm
  | succ n ih =>
    rw [Function.iterate_succ_apply', ih, pass_eq, Level.filters_reviseBy,
      Level.reviseBy_reviseBy]
    refine (Level.pushDown_reviseBy_eq_self h fun _ s _ hs => ?_).trans
      (Level.reviseBy_congr fun s _ => (Function.iterate_succ_apply' (·.pushDown depth) n s).symm)
    exact (((Source.testsAs_pushDown _ depth).trans (htests n s)).takesCondition _).trans hs

theorem iterate_pushDown_subquery (depth n : Nat) (q : Query) (label : String) :
    (·.pushDown (depth + 1))^[n] (Source.subquery q label) =
      .subquery ((pass depth)^[n] q) label := by
  induction n with
  | zero => rfl
  | succ n ih =>
    rw [Function.iterate_succ_apply', Function.iterate_succ_apply', ih]
    rfl

/-- Passes have come to an end one pass after they have in all sources. -/
theorem pass_iterate_of_sources {n : Nat}
    (h : ∀ s : Source, Source.pushDown ((·.pushDown depth)^[n] s) depth = (·.pushDown depth)^[n] s)
    (q : Query) : pass depth ((pass depth)^[n + 1] q) = (pass depth)^[n + 1] q := by
  refine pass_eq_self_iff.mpr ⟨?_, ?_⟩
  · rw [Function.iterate_succ_apply']
    exact pushDown_pass depth _
  · rw [Function.iterate_succ_apply, iterate_pass (pushDown_pass depth q), Level.sources_reviseBy,
      List.forall_mem_map]
    exact fun s _ => h s

/-- **Passes come to an end after as many as they go levels down**, and one for the query itself. The
induction is on the levels that they go down: in the sources of the query it is one less. -/
theorem pass_iterate_pass (depth : Nat) (q : Query) {n : Nat} (h : depth < n) :
    pass depth ((pass depth)^[n] q) = (pass depth)^[n] q := by
  induction depth generalizing q n with
  | zero =>
    obtain ⟨n, rfl⟩ := Nat.exists_eq_succ_of_ne_zero (Nat.ne_of_gt h)
    refine pass_iterate_of_sources (fun s => ?_) q
    cases Nat.iterate (Source.pushDown · 0) n s with
    | collection name label => rfl
    | subquery q label => rfl
  | succ depth ih =>
    obtain ⟨n, rfl⟩ := Nat.exists_eq_succ_of_ne_zero (Nat.ne_of_gt (Nat.zero_lt_of_lt h))
    refine pass_iterate_of_sources (fun s => ?_) q
    cases s with
    | collection name label =>
      rw [Function.iterate_fixed (f := (Source.pushDown · (depth + 1))) rfl n]
      rfl
    | subquery q label =>
      rw [iterate_pushDown_subquery]
      exact congrArg (Source.subquery · label) (ih q (Nat.lt_of_succ_lt_succ h))

theorem passes_eq_iterate (depth n : Nat) (q : Query) : passes depth n q = (pass depth)^[n] q := by
  induction n generalizing q with
  | zero => rfl
  | succ n ih =>
    rw [Function.iterate_succ_apply]
    unfold passes
    dsimp only
    split
    · rename_i hsame
      rw [hsame]
      exact (Function.iterate_fixed hsame n).symm
    · exact ih _

/-- **Passes converge**: after some number of passes, at most one more than the levels that they go
down, a pass changes nothing, and so any greater bound on their number has the same outcome. -/
theorem passes_converge (depth : Nat) (q : Query) : ∃ n ≤ depth + 1,
    (pass depth)^[n + 1] q = (pass depth)^[n] q ∧
      ∀ m ≥ n, passes depth m q = (pass depth)^[n] q := by
  refine ⟨depth + 1, le_rfl, ?_, fun m hm => ?_⟩
  · rw [Function.iterate_succ_apply']
    exact pass_iterate_pass depth q (Nat.lt_succ_self depth)
  · obtain ⟨k, rfl⟩ := Nat.exists_eq_add_of_le' hm
    rw [passes_eq_iterate, Function.iterate_add_apply]
    exact Function.iterate_fixed (pass_iterate_pass depth q (Nat.lt_succ_self depth)) k

end Query

end DeltaView
