import DeltaView.Expr.Eval
import DeltaView.Query.Conjunct
import Mathlib.Data.List.Basic

/-!
# Conjuncts and what they read

A condition is as good as its conjuncts: it holds where they hold, reads what they read, and has a
value if they have one. A condition on one source depends on the fields of that source alone.

* `eval_congr`: the value of an expression depends on the paths it reads.
* **`holds_eq_all`**, `refs_eq_flatMap`, `check_eq_ok_iff`: a condition through its conjuncts.
* **`conjuncts_conjoin?`**: putting conditions together keeps their conjuncts.
* `ReadsOnly`, `readsOnly_of_scope`, **`ReadsOnly.holds_congr`**: what a condition on one source
  depends on.
-/

namespace DeltaView

namespace Expr

variable {row row' : Value}

/-! ## The paths that are read -/

mutual

/-- The value of an expression depends on the paths it reads. -/
theorem eval_congr : ∀ {e : Expr}, (∀ path ∈ e.refs, field path row = field path row') →
    e.eval row = e.eval row'
  | .literal _, _ => rfl
  | .ref path, h => h path List.mem_cons_self
  | .call name args, h => by
    have hargs := evalAll_congr args h
    simp only [eval]
    rw [hargs]
  | .aggregate _ _, _ => rfl
  | .unknown, _ => rfl

theorem evalAll_congr : ∀ es : List Expr,
    (∀ path ∈ refsOfAll es, field path row = field path row') → evalAll row es = evalAll row' es
  | [], _ => rfl
  | e :: es, h => by
    have he := eval_congr (e := e) fun path hp => h path (List.mem_append_left _ hp)
    have hes := evalAll_congr es fun path hp => h path (List.mem_append_right _ hp)
    simp only [evalAll]
    rw [he, hes]

end

theorem holds_congr {e : Expr} (h : ∀ path ∈ e.refs, field path row = field path row') :
    e.holds row = e.holds row' := congrArg Value.isTruthy (eval_congr h)

/-! ## A condition through its conjuncts -/

theorem evalAll_eq_map (row : Value) (es : List Expr) : evalAll row es = es.map (eval row) := by
  induction es with
  | nil => rfl
  | cons e es ih => exact congrArg (eval row e :: ·) ih

theorem conjunctsOfAll_eq_flatMap (es : List Expr) : conjunctsOfAll es = es.flatMap conjuncts := by
  induction es with
  | nil => rfl
  | cons e es ih => exact congrArg (conjuncts e ++ ·) ih

theorem checkAll_eq_ok_iff {es : List Expr} :
    checkAll es = .ok () ↔ ∀ e ∈ es, e.check = .ok () := by
  induction es with
  | nil => exact ⟨fun _ _ h => absurd h List.not_mem_nil, fun _ => rfl⟩
  | cons e es ih =>
    rw [List.forall_mem_cons, ← ih]
    rw [checkAll]
    cases e.check with
    | error err => simp
    | ok u => simp

theorem holds_and (args : List Expr) (row : Value) :
    (call "and" args).holds row = args.all (·.holds row) := by
  show (Value.bool ((evalAll row args).all Value.isTruthy)).isTruthy = _
  rw [evalAll_eq_map, Value.isTruthy, List.all_map]
  rfl

/-- A call of another function is its own conjunct. -/
theorem conjuncts_call {name : String} (h : name ≠ "and") (args : List Expr) :
    conjuncts (call name args) = [call name args] := by
  unfold conjuncts
  rw [if_neg h]

mutual

/-- **A condition holds where its conjuncts hold.** -/
theorem holds_eq_all : ∀ (e : Expr) (row : Value), e.holds row = e.conjuncts.all (·.holds row)
  | .literal _, _ => (Bool.and_true _).symm
  | .ref _, _ => (Bool.and_true _).symm
  | .call name args, row => by
    by_cases h : name = "and"
    · subst h
      rw [holds_and]
      exact all_holds_eq_all args row
    · rw [conjuncts_call h]
      exact (Bool.and_true _).symm
  | .aggregate _ _, _ => (Bool.and_true _).symm
  | .unknown, _ => (Bool.and_true _).symm

theorem all_holds_eq_all : ∀ (es : List Expr) (row : Value),
    es.all (·.holds row) = (conjunctsOfAll es).all (·.holds row)
  | [], _ => rfl
  | e :: es, row => by
    rw [conjunctsOfAll, List.all_append, ← holds_eq_all e row, ← all_holds_eq_all es row]
    rfl

end

mutual

/-- The paths that a condition reads are those of its conjuncts. -/
theorem refs_eq_flatMap : ∀ e : Expr, e.refs = e.conjuncts.flatMap refs
  | .literal _ => rfl
  | .ref _ => rfl
  | .call name args => by
    by_cases h : name = "and"
    · subst h
      exact refsOfAll_eq_flatMap_conjuncts args
    · rw [conjuncts_call h]
      exact (List.append_nil _).symm
  | .aggregate name args => (List.append_nil (refsOfAll args)).symm
  | .unknown => rfl

theorem refsOfAll_eq_flatMap_conjuncts : ∀ es : List Expr,
    refsOfAll es = (conjunctsOfAll es).flatMap refs
  | [] => rfl
  | e :: es => by
    rw [conjunctsOfAll, List.flatMap_append, ← refs_eq_flatMap e,
      ← refsOfAll_eq_flatMap_conjuncts es]
    rfl

end

theorem check_eq_ok_iff_of_atom {e : Expr} (h : e.conjuncts = [e]) :
    e.check = .ok () ↔ ∀ c ∈ e.conjuncts, c.check = .ok () := by
  rw [h, List.forall_mem_singleton]

mutual

/-- A condition has a value if its conjuncts have one. -/
theorem check_eq_ok_iff : ∀ e : Expr, e.check = .ok () ↔ ∀ c ∈ e.conjuncts, c.check = .ok ()
  | .literal _ => check_eq_ok_iff_of_atom rfl
  | .ref _ => check_eq_ok_iff_of_atom rfl
  | .call name args => by
    by_cases h : name = "and"
    · subst h
      exact checkAll_eq_ok_iff_conjuncts args
    · exact check_eq_ok_iff_of_atom (conjuncts_call h args)
  | .aggregate _ _ => check_eq_ok_iff_of_atom rfl
  | .unknown => check_eq_ok_iff_of_atom rfl

theorem checkAll_eq_ok_iff_conjuncts : ∀ es : List Expr,
    checkAll es = .ok () ↔ ∀ c ∈ conjunctsOfAll es, c.check = .ok ()
  | [] => ⟨fun _ _ h => absurd h List.not_mem_nil, fun _ => rfl⟩
  | e :: es => by
    rw [checkAll_eq_ok_iff, List.forall_mem_cons, ← checkAll_eq_ok_iff, check_eq_ok_iff e,
      checkAll_eq_ok_iff_conjuncts es, conjunctsOfAll, List.forall_mem_append]

end

/-- The sources that a condition reads are those of its conjuncts. -/
theorem mem_labels_iff {e : Expr} {a : String} :
    a ∈ e.labels ↔ ∃ c ∈ e.conjuncts, a ∈ c.labels := by
  unfold labels
  rw [refs_eq_flatMap e]
  simp only [List.mem_filter, List.mem_filterMap, List.mem_flatMap]
  constructor
  · rintro ⟨⟨path, ⟨c, hc, hp⟩, ha⟩, hne⟩
    exact ⟨c, hc, ⟨path, hp, ha⟩, hne⟩
  · rintro ⟨c, hc, ⟨path, hp, ha⟩, hne⟩
    exact ⟨⟨path, ⟨c, hc, hp⟩, ha⟩, hne⟩

/-! ## Conjuncts of conjuncts -/

mutual

/-- Conjuncts are not taken apart any further. -/
theorem conjuncts_of_mem : ∀ {e c : Expr}, c ∈ e.conjuncts → c.conjuncts = [c]
  | .literal _, _, h => by
    obtain rfl := List.mem_singleton.mp h
    rfl
  | .ref _, _, h => by
    obtain rfl := List.mem_singleton.mp h
    rfl
  | .call name args, c, h => by
    by_cases hn : name = "and"
    · subst hn
      exact conjuncts_of_mem_all args h
    · rw [conjuncts_call hn] at h
      obtain rfl := List.mem_singleton.mp h
      exact conjuncts_call hn args
  | .aggregate _ _, _, h => by
    obtain rfl := List.mem_singleton.mp h
    rfl
  | .unknown, _, h => by
    obtain rfl := List.mem_singleton.mp h
    rfl

theorem conjuncts_of_mem_all : ∀ (es : List Expr) {c : Expr}, c ∈ conjunctsOfAll es →
    c.conjuncts = [c]
  | [], _, h => absurd h List.not_mem_nil
  | _ :: es, _, h =>
    (List.mem_append.mp h).elim conjuncts_of_mem (conjuncts_of_mem_all es)

end

theorem conjunctsOfAll_eq_self {cs : List Expr} (h : ∀ c ∈ cs, c.conjuncts = [c]) :
    conjunctsOfAll cs = cs := by
  induction cs with
  | nil => rfl
  | cons c cs ih =>
    rw [List.forall_mem_cons] at h
    rw [conjunctsOfAll, h.1, ih h.2]
    rfl

theorem conjunctsOfAll_append (es es' : List Expr) :
    conjunctsOfAll (es ++ es') = conjunctsOfAll es ++ conjunctsOfAll es' := by
  rw [conjunctsOfAll_eq_flatMap, conjunctsOfAll_eq_flatMap, conjunctsOfAll_eq_flatMap,
    List.flatMap_append]

/-- **Putting conditions together keeps their conjuncts.** -/
theorem conjuncts_conjoin? {es : List Expr} {e : Expr} (h : conjoin? es = some e) :
    e.conjuncts = conjunctsOfAll es := by
  have hatoms : ∀ c ∈ conjunctsOfAll es, c.conjuncts = [c] := fun c => conjuncts_of_mem_all es
  unfold conjoin? at h
  split at h
  · exact absurd h (by simp)
  · rename_i c hc
    obtain rfl := Option.some.inj h
    rw [hc] at hatoms ⊢
    exact hatoms c List.mem_cons_self
  · obtain rfl := Option.some.inj h
    exact conjunctsOfAll_eq_self hatoms

theorem conjunctsOfAll_conjoin? (es : List Expr) :
    conjunctsOfAll (conjoin? es).toList = conjunctsOfAll es := by
  cases h : conjoin? es with
  | none =>
    unfold conjoin? at h
    split at h
    · rename_i hnil
      exact hnil.symm
    · exact absurd h (by simp)
    · exact absurd h (by simp)
  | some e =>
    rw [← conjuncts_conjoin? h]
    exact List.append_nil _

/-! ## Conditions on one source -/

/-- The paths of an expression lead to no source, or to fields of one source. -/
def ReadsOnly (label : String) (e : Expr) : Prop :=
  ∀ path ∈ e.refs,
    path = [] ∨ (∃ rest, path = "" :: rest) ∨ ∃ name rest, path = label :: name :: rest

theorem ReadsOnly.labels {label a : String} {e : Expr} (h : ReadsOnly label e)
    (ha : a ∈ e.labels) : a = label := by
  obtain ⟨hmem, hne⟩ := List.mem_filter.mp ha
  obtain ⟨path, hpath, hhead⟩ := List.mem_filterMap.mp hmem
  rcases h path hpath with rfl | ⟨rest, rfl⟩ | ⟨name, rest, rfl⟩
  · exact absurd hhead (by simp)
  · obtain rfl := Option.some.inj hhead
    exact absurd rfl (of_decide_eq_true hne)
  · exact (Option.some.inj hhead).symm

theorem readsOnly_of_conjuncts {label : String} {e : Expr}
    (h : ∀ c ∈ e.conjuncts, ReadsOnly label c) : ReadsOnly label e := by
  intro path hp
  rw [refs_eq_flatMap e] at hp
  obtain ⟨c, hc, hp⟩ := List.mem_flatMap.mp hp
  exact h c hc path hp

theorem mem_labels_of_mem_refs {e : Expr} {a : String} {rest : List String}
    (h : a :: rest ∈ e.refs) (ha : a ≠ "") : a ∈ e.labels :=
  List.mem_filter.mpr ⟨List.mem_filterMap.mpr ⟨_, h, rfl⟩, decide_eq_true ha⟩

theorem label?_eq_some {e : Expr} {a : String} (h : e.label? = some a) :
    a ∈ e.labels ∧ ∀ b ∈ e.labels, b = a := by
  unfold label? at h
  split at h
  · exact absurd h (by simp)
  · rename_i c rest hc
    split at h
    · rename_i hall
      obtain rfl := Option.some.inj h
      rw [hc, List.forall_mem_cons]
      exact ⟨List.mem_cons_self, rfl, fun b hb => eq_of_beq (List.all_eq_true.mp hall b hb)⟩
    · exact absurd h (by simp)

theorem scope_eq_single {e : Expr} {a : String} (h : e.scope = .single a) :
    e.label? = some a ∧ e.readsWholeSource = false := by
  unfold scope at h
  split at h
  · exact absurd h (by simp)
  · split at h
    · exact absurd h (by simp)
    · split at h
      · rename_i b hb
        split at h
        · exact absurd h (by simp)
        · rename_i hwhole
          obtain rfl := Scope.single.inj h
          exact ⟨hb, eq_false_of_ne_true hwhole⟩
      · exact absurd h (by simp)

/-- A conjunct on one source reads only fields of that source. -/
theorem readsOnly_of_scope {e : Expr} {a : String} (h : e.scope = .single a) : ReadsOnly a e := by
  obtain ⟨hlabel, hwhole⟩ := scope_eq_single h
  obtain ⟨-, hall⟩ := label?_eq_some hlabel
  intro path hp
  rcases path with _ | ⟨b, rest⟩
  · exact Or.inl rfl
  · by_cases hb : b = ""
    · exact Or.inr (Or.inl ⟨rest, by rw [hb]⟩)
    · obtain rfl := hall b (mem_labels_of_mem_refs hp hb)
      rcases rest with _ | ⟨name, rest⟩
      · have := List.any_eq_false.mp hwhole [b] hp
        exact absurd (bne_iff_ne.mpr hb) this
      · exact Or.inr (Or.inr ⟨name, rest, rfl⟩)

/-- A condition that reads a source depends on one. -/
theorem scope_ne_constant {e : Expr} {a : String} (h : a ∈ e.labels) : e.scope ≠ .constant := by
  have hlabels : e.labels.isEmpty = false := by
    rw [Bool.eq_false_iff, ne_eq, List.isEmpty_iff]
    exact List.ne_nil_of_mem h
  unfold scope
  rw [hlabels]
  split
  · exact fun hs => absurd hs (by simp)
  · rw [if_neg Bool.false_ne_true]
    split
    · split
      · exact fun hs => absurd hs (by simp)
      · exact fun hs => absurd hs (by simp)
    · exact fun hs => absurd hs (by simp)

/-- A condition that depends on no source reads fields of none. -/
theorem readsOnly_of_constant {e : Expr} (h : e.scope = .constant) (label : String) :
    ReadsOnly label e := by
  intro path hp
  rcases path with _ | ⟨a, rest⟩
  · exact Or.inl rfl
  · by_cases ha : a = ""
    · exact Or.inr (Or.inl ⟨rest, by rw [ha]⟩)
    · exact absurd h (scope_ne_constant (mem_labels_of_mem_refs hp ha))

theorem field_congr {a : String} (rest : List String) (h : row.field? a = row'.field? a) :
    field (a :: rest) row = field (a :: rest) row' := by
  show (((row.field? a).bind (Value.path? rest)).getD .null) = _
  rw [h]
  rfl

/-- A path into a source does not hold where the source is absent. -/
theorem holds_ref_of_absent {a : String} (rest : List String) (h : row.field? a = none) :
    (ref (a :: rest)).holds row = false := by
  show (((row.field? a).bind (Value.path? rest)).getD .null).isTruthy = false
  rw [h]
  rfl

/-- **What a condition on one source depends on**: the field of that source. -/
theorem ReadsOnly.holds_congr {label : String} {e : Expr} (h : ReadsOnly label e)
    (hlabel : row.field? label = row'.field? label) (hempty : row.field? "" = row'.field? "") :
    e.holds row = e.holds row' := by
  refine Expr.holds_congr fun path hp => ?_
  rcases h path hp with rfl | ⟨rest, rfl⟩ | ⟨name, rest, rfl⟩
  · rfl
  · exact field_congr rest hempty
  · exact field_congr _ hlabel

/-- A condition that depends on no source is the same for all rows of sources with names. -/
theorem holds_of_constant {e : Expr} (h : e.scope = .constant) (hrow : row.field? "" = none) :
    e.holds row = e.holds (.object []) :=
  (readsOnly_of_constant h "").holds_congr hrow hrow

/-! ## Conjuncts by source -/

theorem mem_conditionsOn {label : String} {es : List Expr} {e : Expr} :
    e ∈ conditionsOn label es ↔ e ∈ es ∧ e.scope = .single label := by
  unfold conditionsOn
  rw [List.mem_filter, decide_eq_true_iff]

theorem mem_conditionedSources {label : String} {es : List Expr} :
    label ∈ conditionedSources es ↔ ∃ e ∈ es, e.scope = .single label := by
  unfold conditionedSources
  rw [List.mem_eraseDups, List.mem_filterMap]
  refine exists_congr fun e => and_congr_right fun _ => ?_
  unfold Scope.label?
  split
  · rename_i b hb
    rw [hb, Option.some_inj, Scope.single.injEq]
  · rename_i hne
    exact ⟨fun h => absurd h (by simp), fun h => absurd h (hne label)⟩

theorem conjuncts_conditionOn? {label : String} {es : List Expr} {e : Expr}
    (hes : ∀ c ∈ es, c.conjuncts = [c]) (h : conditionOn? label es = some e) :
    e.conjuncts = conditionsOn label es :=
  (conjuncts_conjoin? h).trans
    (conjunctsOfAll_eq_self fun c hc => hes c (mem_conditionsOn.mp hc).1)

end Expr

end DeltaView
