import DeltaView.Proofs.Query.Convergence

/-!
# Every conjunct is accounted for

Pushdown at a level with joins takes its conditions apart, moves some of the conjuncts into sources
and puts the others together again. On the way none is lost and none is there twice, but for those
that are moved and must be tested again.

* `Level.ClausesFor`: the clauses that some conjuncts make, one or none.
* `Level.Accounts`: where the conjuncts of a level have gone, and what else has not changed.
* **`pushDown_accounts`**: pushdown accounts for them.
-/

namespace DeltaView

/-- **The clauses that demand some conjuncts**: none for none, and otherwise one. -/
inductive Level.ClausesFor (isResidual : Bool) : List Expr → List Clause → Prop
  | none : ClausesFor isResidual [] []
  | one {cs : List Expr} {e : Expr} (h : Expr.FlatConjunction cs e) :
      ClausesFor isResidual cs [{ expr := e, isResidual }]

/-- **Where the conjuncts of a level have gone**, if those on the sources in `moved` were moved, those
in `stay` have stayed, and those in `again` are tested once more. Residual conditions are not taken
apart. -/
structure Level.Accounts (q q' : Query) (moved : List String) (stay again : List Expr) : Prop where
  /-- Each conjunct is dropped, since it depends on no source, or has stayed, or was moved. -/
  perm : q.fresh.Perm (Expr.constantConditions q.fresh ++ stay ++
    moved.flatMap fun a => Expr.conditionsOn a q.fresh)
  constant : ∀ c ∈ stay, c.scope ≠ .constant
  /-- What needs several sources has stayed, in order. -/
  joint : Expr.jointConditions stay = Expr.jointConditions q.fresh
  /-- What needs one source was moved with all that needs it, or has stayed with it, in order. -/
  single : ∀ a, Expr.conditionsOn a stay = if a ∈ moved then [] else Expr.conditionsOn a q.fresh
  /-- What was moved is tested once more if an outer join may leave its source absent. -/
  repeated : again = (moved.filter (· ∈ q.nullableLabels)).flatMap fun a =>
    Expr.conditionsOn a q.fresh
  /-- One clause for what has stayed, one for what is tested once more, and the residual ones. -/
  filters : ∃ plain residual, ClausesFor false stay plain ∧ ClausesFor true again residual ∧
    q'.filters = plain ++ residual ++ q.filters.filter (·.isResidual)
  /-- Nothing else is different, but for the sources, of which those in `moved` test one condition
  more. -/
  sources : ∃ f, q' = q.reviseBy f q'.filters ∧
    (∀ s ∈ q.sources, s.label ∈ moved →
      ∃ e, Expr.FlatConjunction (Expr.conditionsOn s.label q.fresh) e ∧ f s = s.testing e) ∧
    ∀ s ∈ q.sources, s.label ∉ moved → f s = s
  movedOnce : moved.Nodup
  movedInto : ∀ a ∈ moved, a ∈ q.sources.map (·.label)
  /-- The other sources cannot test what is set on them. -/
  refused : ∀ s ∈ q.sources, s.label ∉ moved →
    ∀ e, Expr.FlatConjunction (Expr.conditionsOn s.label q.fresh) e → s.filtered? e = none

namespace Level

variable {q : Query} {es : List Expr}

theorem isCall_of_mem_fresh {c : Expr} (h : c ∈ q.fresh) : c.isCall "and" = false :=
  Expr.isCall_of_mem_conjunctsOfAll _ h

/-- What is set on a source is one flat condition. -/
theorem conditionOn?_eq_some_iff {label : String} {e : Expr} :
    Expr.conditionOn? label q.fresh = some e ↔
      Expr.FlatConjunction (Expr.conditionsOn label q.fresh) e :=
  Expr.conjoin?_eq_some_iff fun _ hc => isCall_of_mem_fresh (Expr.mem_conditionsOn.mp hc).1

theorem clausesFor_clauseOf (h : ∀ c ∈ es, c ∈ q.fresh) (isResidual : Bool) :
    ClausesFor isResidual es (clauseOf es isResidual) := by
  have hcalls : ∀ c ∈ es, c.isCall "and" = false := fun c hc => isCall_of_mem_fresh (h c hc)
  unfold clauseOf
  cases he : Expr.conjoin? es with
  | none =>
    have hnil := Expr.conjoin?_eq_none_iff.mp he
    rw [Expr.conjunctsOfAll_eq_self fun c hc => Expr.conjuncts_of_isCall (hcalls c hc)] at hnil
    rw [hnil]
    exact .none
  | some e => exact .one ((Expr.conjoin?_eq_some_iff hcalls).mp he)

/-! ## Moved and refused -/

/-- The sources into which conjuncts are moved. -/
def movedSources (q : Query) (es : List Expr) : List String :=
  (Expr.conditionedSources es).filter fun a => q.moves es a

theorem nodup_movedSources (q : Query) (es : List Expr) : (q.movedSources es).Nodup :=
  (Expr.nodup_conditionedSources es).filter _

theorem mem_movedSources {a : String} :
    a ∈ q.movedSources es ↔ Expr.conditionsOn a es ≠ [] ∧ q.moves es a = true := by
  rw [Expr.conditionsOn_ne_nil]
  exact List.mem_filter

theorem mem_refusedSources {a : String} :
    a ∈ q.refusedSources es ↔ Expr.conditionsOn a es ≠ [] ∧ q.moves es a = false := by
  rw [Expr.conditionsOn_ne_nil, ← Bool.not_eq_true']
  exact List.mem_filter

theorem repeated_eq (q : Query) (es : List Expr) : q.repeated es =
    ((q.movedSources es).filter (· ∈ q.nullableLabels)).flatMap fun a =>
      Expr.conditionsOn a es := by
  unfold repeated movedSources
  rw [List.filter_filter]
  refine congrArg (List.flatMap _) (List.filter_congr fun a _ => ?_)
  rw [Bool.and_comm, List.contains_eq_mem]

/-- The conjuncts on a source stay, all of them, unless they are moved. -/
theorem conditionsOn_remaining (q : Query) (es : List Expr) (a : String) :
    Expr.conditionsOn a (q.remaining es) =
      if a ∈ q.movedSources es then [] else Expr.conditionsOn a es := by
  rw [remaining_eq_arranged, Expr.conditionsOn_arranged (q.nodup_refusedSources es)]
  by_cases hnil : Expr.conditionsOn a es = []
  · rw [hnil, ite_self, ite_self]
  · cases hmoves : q.moves es a with
    | false =>
      rw [if_pos (mem_refusedSources.mpr ⟨hnil, hmoves⟩), if_neg fun hmoved => ?_]
      exact Bool.false_ne_true (hmoves.symm.trans (mem_movedSources.mp hmoved).2)
    | true =>
      rw [if_pos (mem_movedSources.mpr ⟨hnil, hmoves⟩), if_neg fun hrefused => ?_]
      exact Bool.false_ne_true ((mem_refusedSources.mp hrefused).2.symm.trans hmoves)

/-- **Every conjunct is dropped, stays or is moved**, as often as it is there. -/
theorem fresh_perm (q : Query) (es : List Expr) :
    es.Perm (Expr.constantConditions es ++ q.remaining es ++
      (q.movedSources es).flatMap fun a => Expr.conditionsOn a es) := by
  have hsources : (q.refusedSources es ++ q.movedSources es).Perm (Expr.conditionedSources es) :=
    List.perm_append_comm.trans (List.filter_append_perm _ _)
  have harranged : Expr.arranged (q.refusedSources es ++ q.movedSources es) es =
      q.remaining es ++ (q.movedSources es).flatMap fun a => Expr.conditionsOn a es := by
    unfold Expr.arranged
    rw [List.flatMap_append, ← List.append_assoc]
    rfl
  rw [List.append_assoc, ← harranged]
  exact Expr.perm_arranged hsources

theorem ne_constant_of_mem_remaining {c : Expr} (h : c ∈ q.remaining es) : c.scope ≠ .constant :=
  Expr.scope_ne_constant_of_mem_arranged (q.remaining_eq_arranged es ▸ h)

theorem jointConditions_remaining (q : Query) (es : List Expr) :
    Expr.jointConditions (q.remaining es) = Expr.jointConditions es := by
  rw [remaining_eq_arranged, Expr.jointConditions_arranged]

/-- Where labels tell sources apart, conjuncts are moved into the source that takes them. -/
theorem mem_movedSources_label (hdistinct : (q.sources.map (·.label)).Nodup) {s : Source}
    (hs : s ∈ q.sources) : s.label ∈ q.movedSources es ↔ s.takesCondition es = true := by
  rw [mem_movedSources, moves_eq es hdistinct hs, and_iff_right_iff_imp]
  rintro htakes hnil
  unfold Source.takesCondition Expr.conditionOn? at htakes
  rw [hnil] at htakes
  exact Bool.false_ne_true htakes

/-- What a source makes of the conjuncts on it, if it takes them. -/
theorem takeCondition_eq_testing {s : Source} (h : s.takesCondition q.fresh = true) :
    ∃ e, Expr.FlatConjunction (Expr.conditionsOn s.label q.fresh) e ∧
      s.takeCondition q.fresh = s.testing e := by
  obtain ⟨e, hcondition, hfiltered⟩ := s.takeCondition_of_takesCondition h
  exact ⟨e, conditionOn?_eq_some_iff.mp hcondition, Source.eq_testing_of_filtered? hfiltered⟩

theorem filtered?_eq_none {s : Source} {e : Expr} (h : s.takesCondition q.fresh = false)
    (he : Expr.FlatConjunction (Expr.conditionsOn s.label q.fresh) e) : s.filtered? e = none := by
  unfold Source.takesCondition at h
  rw [conditionOn?_eq_some_iff.mpr he] at h
  exact Option.isNone_iff_eq_none.mp (Option.isSome_eq_false_iff.mp h)

/-- **Pushdown accounts for every conjunct**, where labels tell sources apart. -/
theorem pushDown_accounts (hj : q.joins ≠ []) (hdistinct : (q.sources.map (·.label)).Nodup) :
    ∃ moved stay again, q.Accounts q.pushDown moved stay again := by
  have hmoved : ∀ s ∈ q.sources, s.label ∈ q.movedSources q.fresh ↔
      s.takesCondition q.fresh = true := fun s hs => mem_movedSources_label hdistinct hs
  have hstays : ∀ s ∈ q.sources, s.label ∉ q.movedSources q.fresh →
      s.takesCondition q.fresh = false := fun s hs h =>
    eq_false_of_ne_true fun htakes => h ((hmoved s hs).mpr htakes)
  refine ⟨q.movedSources q.fresh, q.remaining q.fresh, q.repeated q.fresh, ?_⟩
  rw [pushDown_of_joins hj]
  exact {
    perm := q.fresh_perm q.fresh
    constant := fun c hc => ne_constant_of_mem_remaining hc
    joint := q.jointConditions_remaining q.fresh
    single := q.conditionsOn_remaining q.fresh
    repeated := q.repeated_eq q.fresh
    filters := ⟨_, _, clausesFor_clauseOf (fun c hc => (mem_remaining.mp hc).1) false,
      clausesFor_clauseOf (fun c hc => (mem_repeated.mp hc).1) true, rfl⟩
    sources := ⟨_, q.moveFilters_eq,
      fun s hs hlabel => takeCondition_eq_testing ((hmoved s hs).mp hlabel),
      fun s hs hlabel => takeCondition_of_not_takesCondition (hstays s hs hlabel)⟩
    movedOnce := q.nodup_movedSources q.fresh
    movedInto := fun a ha => by
      obtain ⟨s, hs, hboth⟩ := List.any_eq_true.mp (mem_movedSources.mp ha).2
      rw [Bool.and_eq_true, beq_iff_eq] at hboth
      exact List.mem_map.mpr ⟨s, hs, hboth.1⟩
    refused := fun s hs hlabel e he => filtered?_eq_none (hstays s hs hlabel) he }

/-- Users with the last of their posts and their teams: the condition on users is moved, and that on
teams as well, but it is tested once more; that on posts would choose among them before the last is
taken, so it stays with those on more than one source, and a literal is dropped. -/
theorem pushDown_accounts_of_outer_joins :
    let posts : Query :=
      { source := .collection "posts" "p"
        orderBy := [⟨.ref ["p", "date"], .standard⟩]
        limit := some 3 }
    let same : Expr := .eq (.ref ["u", "city"]) (.ref ["t", "city"])
    let q : Query :=
      { source := .collection "users" "u"
        joins := [⟨.left, .subquery posts "p", .ref ["u", "id"], .ref ["p", "author"]⟩,
          ⟨.left, .collection "teams" "t", .ref ["u", "team"], .ref ["t", "id"]⟩]
        filters := [⟨.and [.ref ["p", "text"], .ref ["u", "age"], .literal (.bool true)], false⟩,
          ⟨.ref ["t", "age"], true⟩, ⟨.and [same, .ref ["t", "name"], .unknown], false⟩] }
    q.joins ≠ [] ∧ (q.sources.map (·.label)).Nodup ∧
      (∃ moved stay again, q.Accounts q.pushDown moved stay again) ∧
      q.movedSources q.fresh = ["u", "t"] ∧
      q.pushDown.filters = [⟨.and [same, .unknown, .ref ["p", "text"]], false⟩,
        ⟨.ref ["t", "name"], true⟩, ⟨.ref ["t", "age"], true⟩] := by
  intro posts same q
  have hj : q.joins ≠ [] := List.cons_ne_nil _ _
  have hdistinct : (q.sources.map (·.label)).Nodup := by decide
  exact ⟨hj, hdistinct, pushDown_accounts hj hdistinct, by decide +kernel, by decide +kernel⟩

end Level

end DeltaView
