import DeltaView.Proofs.Expr.Conjunct
import DeltaView.Proofs.Table

/-!
# Conjuncts arranged by source

The conjuncts that stay at a level are arranged: first those that several sources are needed for,
then those on one source after those on another. Arranging keeps the order within each of these
groups, and arranging once more changes nothing.

* `Expr.arranged`: the joint conjuncts, then those on some sources.
* **`conditionsOn_arranged`**, `jointConditions_arranged`: the groups after arranging are those
  before.
* **`arranged_arranged`**: what is arranged stays so.
* **`perm_arranged`**: arranging loses nothing but the conjuncts that depend on no source.
* `FlatConjunction`, **`conjoin?_eq_some_iff`**: what conjuncts are put together to.
-/

namespace DeltaView

namespace Expr

variable {es : List Expr} {labels : List String}

/-! ## Groups of conjuncts -/

theorem conditionsOn_append (label : String) (es es' : List Expr) :
    conditionsOn label (es ++ es') = conditionsOn label es ++ conditionsOn label es' :=
  List.filter_append _ _

theorem jointConditions_append (es es' : List Expr) :
    jointConditions (es ++ es') = jointConditions es ++ jointConditions es' := List.filter_append _ _

theorem mem_jointConditions {c : Expr} :
    c ∈ jointConditions es ↔ c ∈ es ∧ c.scope.isJoint = true := List.mem_filter

theorem isJoint_of_single {c : Expr} {label : String} (h : c.scope = .single label) :
    c.scope.isJoint = false := by
  rw [h]
  rfl

/-- A joint conjunct is on no single source. -/
theorem conditionsOn_jointConditions (label : String) (es : List Expr) :
    conditionsOn label (jointConditions es) = [] := by
  refine List.eq_nil_iff_forall_not_mem.mpr fun c hc => ?_
  obtain ⟨hjoint, hscope⟩ := mem_conditionsOn.mp hc
  exact Bool.false_ne_true ((isJoint_of_single hscope).symm.trans (mem_jointConditions.mp hjoint).2)

/-- Conjuncts on a source are those on it, and on no other one. -/
theorem conditionsOn_conditionsOn (a b : String) (es : List Expr) :
    conditionsOn a (conditionsOn b es) = if a = b then conditionsOn a es else [] := by
  split
  · rename_i heq
    subst heq
    exact List.filter_eq_self.mpr fun c hc => decide_eq_true (mem_conditionsOn.mp hc).2
  · rename_i hne
    refine List.eq_nil_iff_forall_not_mem.mpr fun c hc => hne ?_
    obtain ⟨hb, ha⟩ := mem_conditionsOn.mp hc
    exact Scope.single.inj (ha.symm.trans (mem_conditionsOn.mp hb).2)

theorem conditionsOn_flatMap (h : labels.Nodup) (label : String) (es : List Expr) :
    conditionsOn label (labels.flatMap fun a => conditionsOn a es) =
      if label ∈ labels then conditionsOn label es else [] := by
  induction labels with
  | nil => rfl
  | cons a labels ih =>
    obtain ⟨hnew, hrest⟩ := List.nodup_cons.mp h
    rw [List.flatMap_cons, conditionsOn_append, conditionsOn_conditionsOn, ih hrest]
    by_cases ha : label = a
    · subst ha
      rw [if_pos rfl, if_neg hnew, List.append_nil, if_pos List.mem_cons_self]
    · rw [if_neg ha, List.nil_append]
      simp only [List.mem_cons, ha, false_or]

/-! ## Arranging -/

/-- The conjuncts that several sources are needed for, then those on each of some sources. -/
def arranged (labels : List String) (es : List Expr) : List Expr :=
  jointConditions es ++ labels.flatMap fun a => conditionsOn a es

theorem mem_arranged {c : Expr} : c ∈ arranged labels es ↔
    c ∈ es ∧ (c.scope.isJoint = true ∨ ∃ a ∈ labels, c.scope = .single a) := by
  unfold arranged
  rw [List.mem_append, mem_jointConditions, List.mem_flatMap, and_or_left]
  refine or_congr_right ?_
  constructor
  · rintro ⟨a, ha, hc⟩
    exact ⟨(mem_conditionsOn.mp hc).1, a, ha, (mem_conditionsOn.mp hc).2⟩
  · rintro ⟨hc, a, ha, hscope⟩
    exact ⟨a, ha, mem_conditionsOn.mpr ⟨hc, hscope⟩⟩

/-- **Arranging keeps the conjuncts on a source**, in their order, or leaves all of them out. -/
theorem conditionsOn_arranged (h : labels.Nodup) (label : String) (es : List Expr) :
    conditionsOn label (arranged labels es) =
      if label ∈ labels then conditionsOn label es else [] := by
  unfold arranged
  rw [conditionsOn_append, conditionsOn_jointConditions, List.nil_append, conditionsOn_flatMap h]

/-- **Arranging keeps the joint conjuncts**, in their order. -/
theorem jointConditions_arranged (labels : List String) (es : List Expr) :
    jointConditions (arranged labels es) = jointConditions es := by
  have hsingle : jointConditions (labels.flatMap fun a => conditionsOn a es) = [] := by
    refine List.eq_nil_iff_forall_not_mem.mpr fun c hc => ?_
    obtain ⟨hmem, hjoint⟩ := mem_jointConditions.mp hc
    obtain ⟨a, -, ha⟩ := List.mem_flatMap.mp hmem
    exact Bool.false_ne_true ((isJoint_of_single (mem_conditionsOn.mp ha).2).symm.trans hjoint)
  unfold arranged
  rw [jointConditions_append, hsingle, List.append_nil]
  exact List.filter_eq_self.mpr fun c hc => (mem_jointConditions.mp hc).2

theorem nodup_conditionedSources (es : List Expr) : (conditionedSources es).Nodup :=
  nodup_eraseDups _

theorem conditionsOn_ne_nil {label : String} :
    conditionsOn label es ≠ [] ↔ label ∈ conditionedSources es := by
  rw [mem_conditionedSources]
  constructor
  · intro hne
    obtain ⟨c, hc⟩ := List.exists_mem_of_ne_nil _ hne
    exact ⟨c, mem_conditionsOn.mp hc⟩
  · rintro ⟨c, hc⟩
    exact List.ne_nil_of_mem (mem_conditionsOn.mpr hc)

/-- A value in front that is not in the rest is what is left of its repetitions. -/
theorem eraseDups_replicate_append {a : String} {rest : List String} (n : Nat) (h : a ∉ rest) :
    (List.replicate (n + 1) a ++ rest).eraseDups = a :: rest.eraseDups := by
  have hfilter : (List.replicate n a ++ rest).filter (fun b => !b == a) = rest := by
    rw [List.filter_append, List.filter_replicate_of_neg (by simp), List.nil_append]
    refine List.filter_eq_self.mpr fun b hb => ?_
    simpa using fun heq : b = a => h (heq ▸ hb)
  rw [List.replicate_succ, List.cons_append, List.eraseDups_cons, hfilter]

/-- The sources of arranged conjuncts, in the order in which they are arranged. -/
theorem conditionedSources_arranged (h : labels.Nodup) (hsub : labels ⊆ conditionedSources es) :
    conditionedSources (arranged labels es) = labels := by
  have hjoint : (jointConditions es).filterMap (fun e => e.scope.label?) = [] := by
    refine List.filterMap_eq_nil_iff.mpr fun c hc => ?_
    have hisJoint := (mem_jointConditions.mp hc).2
    cases hscope : c.scope with
    | single a => exact absurd ((isJoint_of_single hscope).symm.trans hisJoint) Bool.false_ne_true
    | _ => rfl
  unfold conditionedSources arranged
  rw [List.filterMap_append, hjoint, List.nil_append]
  clear hjoint
  induction labels with
  | nil => rfl
  | cons a labels ih =>
    obtain ⟨hnew, hrest⟩ := List.nodup_cons.mp h
    obtain ⟨hmem, hsub⟩ := List.cons_subset.mp hsub
    obtain ⟨n, hn⟩ := Nat.exists_eq_succ_of_ne_zero fun hzero =>
      conditionsOn_ne_nil.mpr hmem (List.length_eq_zero_iff.mp hzero)
    have hgroup : (conditionsOn a es).filterMap (fun e => e.scope.label?) =
        List.replicate (n + 1) a := by
      rw [← Nat.succ_eq_add_one, ← hn, List.filterMap_congr (g := fun _ => some a) fun c hc => ?_]
      · rw [List.filterMap_eq_map']
        exact List.map_const'
      · rw [(mem_conditionsOn.mp hc).2]
        rfl
    rw [List.flatMap_cons, List.filterMap_append, hgroup, eraseDups_replicate_append n, ih hrest hsub]
    intro hin
    obtain ⟨c, hc, hlabel⟩ := List.mem_filterMap.mp hin
    obtain ⟨b, hb, hcb⟩ := List.mem_flatMap.mp hc
    rw [(mem_conditionsOn.mp hcb).2] at hlabel
    exact hnew (Option.some.inj hlabel ▸ hb)

/-- **What is arranged stays so**, whatever sources are left out. -/
theorem arranged_arranged (h : labels.Nodup) (es : List Expr) :
    arranged labels (arranged labels es) = arranged labels es := by
  have hgroups : labels.flatMap (fun a => conditionsOn a (arranged labels es)) =
      labels.flatMap fun a => conditionsOn a es := by
    refine List.flatMap_congr fun a ha => ?_
    rw [conditionsOn_arranged h, if_pos ha]
  show jointConditions (arranged labels es) ++ _ = arranged labels es
  rw [jointConditions_arranged, hgroups]
  rfl

/-! ## Counting -/

/-- The conjuncts that depend on no source. -/
def constantConditions (es : List Expr) : List Expr := es.filter fun e => e.scope = .constant

theorem constantConditions_append (es es' : List Expr) :
    constantConditions (es ++ es') = constantConditions es ++ constantConditions es' :=
  List.filter_append _ _

theorem mem_constantConditions {c : Expr} :
    c ∈ constantConditions es ↔ c ∈ es ∧ c.scope = .constant := by
  unfold constantConditions
  rw [List.mem_filter, decide_eq_true_iff]

theorem scope_ne_constant_of_mem_arranged {c : Expr} (h : c ∈ arranged labels es) :
    c.scope ≠ .constant := by
  intro hconstant
  rcases (mem_arranged.mp h).2 with hjoint | ⟨a, -, hsingle⟩
  · rw [hconstant] at hjoint
    exact Bool.false_ne_true hjoint
  · exact Scope.noConfusion (hconstant.symm.trans hsingle)

/-- Every conjunct is in one of the groups, so these tell how often it is there. -/
theorem perm_of_groups {es es' : List Expr}
    (hconstant : constantConditions es = constantConditions es')
    (hjoint : jointConditions es = jointConditions es')
    (hsingle : ∀ label, conditionsOn label es = conditionsOn label es') : es.Perm es' := by
  refine List.perm_iff_count.mpr fun c => ?_
  have hgroup : ∀ p : Expr → Bool, p c = true → es.filter p = es'.filter p →
      es.count c = es'.count c := fun p hp heq => by
    rw [← List.count_filter hp, heq, List.count_filter hp]
  cases hscope : c.scope with
  | constant => exact hgroup _ (decide_eq_true hscope) hconstant
  | single label => exact hgroup _ (decide_eq_true hscope) (hsingle label)
  | several => exact hgroup (·.scope.isJoint) (by rw [hscope]; rfl) hjoint
  | hidden => exact hgroup (·.scope.isJoint) (by rw [hscope]; rfl) hjoint

/-- **Arranging by all sources loses nothing** but the conjuncts that depend on none. -/
theorem perm_arranged (h : labels.Perm (conditionedSources es)) :
    es.Perm (constantConditions es ++ arranged labels es) := by
  have hnodup : labels.Nodup := h.nodup_iff.mpr (nodup_conditionedSources es)
  refine perm_of_groups ?_ ?_ fun label => ?_
  · have hnone : constantConditions (arranged labels es) = [] :=
      List.eq_nil_iff_forall_not_mem.mpr fun c hc =>
        scope_ne_constant_of_mem_arranged (mem_constantConditions.mp hc).1
          (mem_constantConditions.mp hc).2
    have hall : constantConditions (constantConditions es) = constantConditions es :=
      List.filter_eq_self.mpr fun c hc => decide_eq_true (mem_constantConditions.mp hc).2
    rw [constantConditions_append, hall, hnone, List.append_nil]
  · have hnone : jointConditions (constantConditions es) = [] := by
      refine List.eq_nil_iff_forall_not_mem.mpr fun c hc => ?_
      obtain ⟨hconstant, hjoint⟩ := mem_jointConditions.mp hc
      rw [(mem_constantConditions.mp hconstant).2] at hjoint
      exact Bool.false_ne_true hjoint
    rw [jointConditions_append, hnone, List.nil_append, jointConditions_arranged]
  · have hnone : conditionsOn label (constantConditions es) = [] := by
      refine List.eq_nil_iff_forall_not_mem.mpr fun c hc => ?_
      obtain ⟨hconstant, hsingle⟩ := mem_conditionsOn.mp hc
      exact Scope.noConfusion ((mem_constantConditions.mp hconstant).2.symm.trans hsingle)
    rw [conditionsOn_append, hnone, List.nil_append, conditionsOn_arranged hnodup]
    split
    · rfl
    · rename_i hnew
      exact not_not.mp fun hne => hnew (h.mem_iff.mpr (conditionsOn_ne_nil.mp hne))

/-! ## Putting conjuncts together -/

/-- **A condition that demands some conjuncts and is flat**: the only one of them, or a call of `and`
on all of them, none of which is such a call. -/
inductive FlatConjunction : List Expr → Expr → Prop
  | one {c : Expr} (hc : c.isCall "and" = false) : FlatConjunction [c] c
  | several {cs : List Expr} (hlength : 2 ≤ cs.length) (hcs : ∀ c ∈ cs, c.isCall "and" = false) :
      FlatConjunction cs (.call "and" cs)

theorem conjuncts_of_isCall {c : Expr} (h : c.isCall "and" = false) : c.conjuncts = [c] := by
  cases c with
  | call name args => exact conjuncts_call (beq_eq_false_iff_ne.mp h) args
  | _ => rfl

mutual

/-- No conjunct is a call of `and`. -/
theorem isCall_of_mem_conjuncts : ∀ {e c : Expr}, c ∈ e.conjuncts → c.isCall "and" = false
  | .literal _, _, h => by
    obtain rfl := List.mem_singleton.mp h
    rfl
  | .ref _, _, h => by
    obtain rfl := List.mem_singleton.mp h
    rfl
  | .call name args, c, h => by
    by_cases hn : name = "and"
    · subst hn
      exact isCall_of_mem_conjunctsOfAll args h
    · rw [conjuncts_call hn] at h
      obtain rfl := List.mem_singleton.mp h
      exact beq_eq_false_iff_ne.mpr hn
  | .aggregate _ _, _, h => by
    obtain rfl := List.mem_singleton.mp h
    rfl
  | .unknown, _, h => by
    obtain rfl := List.mem_singleton.mp h
    rfl

theorem isCall_of_mem_conjunctsOfAll : ∀ (es : List Expr) {c : Expr}, c ∈ conjunctsOfAll es →
    c.isCall "and" = false
  | [], _, h => absurd h List.not_mem_nil
  | _ :: es, _, h =>
    (List.mem_append.mp h).elim isCall_of_mem_conjuncts (isCall_of_mem_conjunctsOfAll es)

end

theorem conjoin?_eq_none_iff {es : List Expr} : conjoin? es = none ↔ conjunctsOfAll es = [] := by
  unfold conjoin?
  split
  · rename_i hnil
    simp [hnil]
  · rename_i hone
    simp [hone]
  · rename_i hnil _
    simpa using hnil

/-- **Conjuncts are put together to a flat condition.** -/
theorem conjoin?_eq_some_iff (h : ∀ c ∈ es, c.isCall "and" = false) {e : Expr} :
    conjoin? es = some e ↔ FlatConjunction es e := by
  unfold conjoin?
  rw [conjunctsOfAll_eq_self fun c hc => conjuncts_of_isCall (h c hc)]
  constructor
  · intro he
    split at he
    · exact absurd he (by simp)
    · obtain rfl := Option.some.inj he
      exact .one (h _ List.mem_cons_self)
    · rename_i hnil hone
      obtain rfl := Option.some.inj he
      refine .several ?_ h
      by_contra hshort
      rcases es with _ | ⟨c, _ | ⟨d, es⟩⟩
      · exact hnil rfl
      · exact hone c rfl
      · exact hshort (Nat.le_add_left 2 es.length)
  · rintro (hc | ⟨hlength, -⟩)
    · rfl
    · split
      · exact absurd hlength (by simp)
      · exact absurd hlength (by simp)
      · rfl

end Expr

end DeltaView
