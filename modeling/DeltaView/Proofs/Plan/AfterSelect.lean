import DeltaView.Proofs.Plan.Grouped

/-!
# Clauses on rows of groups

HAVING and ORDER BY of a grouped level are about groups, and read what SELECT left of them: each
part of an expression that is a field of SELECT is replaced by a reference to that field.

* `Expr.BuiltFrom`: expressions of given ones, aggregates and literals.
* `Expr.onGroup`: an expression with the values of a group in it, a part of the key for each
  expression that is grouped by and its value for each aggregate.
* `Level.Reads`, **`reads_throughSelect`**: both ways give one value, as long as an expression is
  built from what SELECT shows of the key.
* **`clauses_read_group`**: so it is on each row that the grouping of a level emits, for the
  expressions in HAVING and ORDER BY. `clauses_read_nothing`: not for a key that is not shown.
-/

namespace DeltaView

namespace Expr

/-! ## Expressions over groups -/

/-- Built from some expressions, aggregates and literals by calls. -/
inductive BuiltFrom (parts : List Expr) : Expr → Prop
  | part {e : Expr} (h : e ∈ parts) : BuiltFrom parts e
  | literal (v : Value) : BuiltFrom parts (.literal v)
  | aggregate (name : String) (args : List Expr) : BuiltFrom parts (.aggregate name args)
  | call (name : String) {args : List Expr} (h : ∀ e ∈ args, BuiltFrom parts e) :
    BuiltFrom parts (.call name args)

/-- The part of a group's key for an expression that is grouped by. -/
def keyPart? (groupBy : List Expr) (key : Value) (e : Expr) : Option Expr :=
  (groupBy.findIdx? (· == e)).map fun i => .literal (GroupTerms.keyPart groupBy.length key i)

mutual

/-- The expression with the values of a group in it: a part of the key for each expression that is
grouped by, and its value for each aggregate. -/
def onGroup (groupBy : List Expr) (key : Value) (members : Delta Row) : Expr → Expr
  | .literal v => (keyPart? groupBy key (.literal v)).getD (.literal v)
  | .ref path => (keyPart? groupBy key (.ref path)).getD (.ref path)
  | .call name args => (keyPart? groupBy key (.call name args)).getD
    (.call name (onGroupAll groupBy key members args))
  | .aggregate name args => (keyPart? groupBy key (.aggregate name args)).getD
    (.literal (aggregateValue name args members))
  | .unknown => (keyPart? groupBy key .unknown).getD .unknown

def onGroupAll (groupBy : List Expr) (key : Value) (members : Delta Row) : List Expr → List Expr
  | [] => []
  | e :: es => onGroup groupBy key members e :: onGroupAll groupBy key members es

end

variable {groupBy : List Expr} {fields : List SelectField} {key x : Value} {e e' : Expr}

theorem keyPart?_eq_none (h : e ∉ groupBy) : keyPart? groupBy key e = none := by
  have hnone : groupBy.findIdx? (· == e) = none :=
    List.findIdx?_eq_none_iff.mpr fun c hc => beq_eq_false_iff_ne.mpr fun hce => h (hce ▸ hc)
  rw [keyPart?, hnone]
  rfl

/-- **What is grouped by is what it is on a member.** -/
theorem eval_onGroup_of_mem (hparts : ∀ (i : Nat) (c : Expr), groupBy[i]? = some c →
      GroupTerms.keyPart groupBy.length key i = c.eval x)
    (h : e ∈ groupBy) (members : Delta Row) (row : Value) :
    (e.onGroup groupBy key members).eval row = e.eval x := by
  obtain ⟨i, hi⟩ : ∃ i, groupBy.findIdx? (· == e) = some i := by
    refine Option.isSome_iff_exists.mp (List.findIdx?_isSome.trans ?_)
    exact List.any_eq_true.mpr ⟨e, h, beq_self_eq_true e⟩
  obtain ⟨hlt, he, -⟩ := List.findIdx?_eq_some_iff_getElem.mp hi
  have hpart := hparts i e (List.getElem?_eq_some_iff.mpr ⟨hlt, eq_of_beq he⟩)
  have hsome : keyPart? groupBy key e =
      some (.literal (GroupTerms.keyPart groupBy.length key i)) := by
    rw [keyPart?, hi]
    rfl
  cases e <;> rw [onGroup, hsome] <;> exact hpart

/-! ## Reading through SELECT -/

theorem selectedAs?_eq_some (h : selectedAs? fields e = some e') :
    ∃ f ∈ fields, f.expr = e ∧ e' = .ref [selectedField, f.label] := by
  obtain ⟨f, hf, rfl⟩ := Option.map_eq_some_iff.mp h
  have hexpr := List.find?_some hf
  exact ⟨f, List.mem_of_find?_eq_some hf, eq_of_beq hexpr, rfl⟩

theorem throughSelect_of_selected (h : selectedAs? fields e = some e') :
    e.throughSelect fields = .ok e' := by
  cases e <;> rw [throughSelect, h] <;> rfl

theorem throughSelectAll_eq_ok {es es' : List Expr} (h : throughSelectAll fields es = .ok es') :
    List.Forall₂ (fun e e' => e.throughSelect fields = .ok e') es es' := by
  induction es generalizing es' with
  | nil =>
    obtain rfl := Except.ok.inj h
    exact .nil
  | cons e es ih =>
    obtain ⟨e', he, h⟩ := bind_eq_ok.mp h
    obtain ⟨rest, hrest, h⟩ := bind_eq_ok.mp h
    obtain rfl := Except.ok.inj h
    exact .cons he (ih hrest)

/-- The field that a reference reads. -/
theorem eval_ref_selected (label : String) (selected : Value) :
    (Expr.ref [selectedField, label]).eval (.ofSelected selected) =
      (selected.field? label).getD .null := by
  have hpath :
      (Value.ofSelected selected).path? [selectedField, label] = selected.field? label := by
    show (Value.lookup selectedField [(selectedField, selected)]).bind _ = _
    rw [Value.lookup, if_pos rfl]
    show (selected.field? label).bind _ = _
    cases selected.field? label <;> rfl
  exact congrArg (·.getD .null) hpath

theorem onGroupAll_eq_map (groupBy : List Expr) (key : Value) (members : Delta Row)
    (es : List Expr) :
    onGroupAll groupBy key members es = es.map (onGroup groupBy key members) := by
  induction es with
  | nil => rfl
  | cons e es ih => rw [onGroupAll, ih, List.map_cons]

/-- Arguments of equal values. -/
theorem evalAll_of_forall₂ {f : Expr → Value} {row : Value} {es es' : List Expr}
    (h : List.Forall₂ (fun e e' => e'.eval row = f e) es es') : evalAll row es' = es.map f := by
  induction h with
  | nil => rfl
  | cons he _ ih => rw [evalAll, he, ih, List.map_cons]

theorem eval_call_congr (name : String) {row row' : Value} {es es' : List Expr}
    (h : evalAll row es = evalAll row' es') :
    (Expr.call name es).eval row = (Expr.call name es').eval row' := by
  rw [eval, eval, h]

theorem check_of_call {name : String} {es : List Expr} (h : (Expr.call name es).check = .ok ()) :
    ∀ e ∈ es, e.check = .ok () := by
  rw [check] at h
  split at h
  · cases h
  · exact checkAll_eq_ok_iff.mp h

end Expr

namespace Level

variable {q : Query} {key x selected : Value} {members : Delta Row} {e e' : Expr}

/-! ## Reading the row of a group -/

/-- What SELECT shows of the key of a group. -/
def shownKeys (q : Query) : List Expr :=
  q.groupBy.filter fun e => (q.select.getD []).any (·.expr == e)

/-- One expression is on what is selected what another one is with the values of the group in it,
and on a member, if it has a value there. -/
structure Reads (q : Query) (key : Value) (members : Delta Row) (x selected : Value)
    (e e' : Expr) : Prop where
  member : e.check = .ok () → e'.eval (.ofSelected selected) = e.eval x
  group : ∀ row, e'.eval (.ofSelected selected) =
    (e.onGroup q.groupBy key members).eval row

/-- Of an expression that is grouped by it is enough to know what it is on a member. -/
theorem Reads.of_mem (hcheck : Expr.checkAll q.groupBy = .ok ())
    (h : q.Shows key members x selected) (hmem : e ∈ q.groupBy)
    (hx : e.check = .ok () → e'.eval (.ofSelected selected) = e.eval x) :
    q.Reads key members x selected e e' := by
  refine ⟨hx, fun row => ?_⟩
  rw [Expr.eval_onGroup_of_mem h.parts hmem]
  exact hx (Expr.checkAll_eq_ok_iff.mp hcheck e hmem)

/-- A reference to a field of SELECT reads what that field is of. -/
theorem reads_field (hcheck : Expr.checkAll q.groupBy = .ok ()) (hkeeps : q.KeepsKey)
    (h : q.Shows key members x selected) {f : SelectField} (hf : f ∈ q.select.getD []) :
    q.Reads key members x selected f.expr (.ref [selectedField, f.label]) := by
  by_cases hagg : ∃ name args, f.expr = .aggregate name args
  · obtain ⟨name, args, he⟩ := hagg
    have hnot : Expr.aggregate name args ∉ q.groupBy := fun hmem =>
      absurd (Expr.checkAll_eq_ok_iff.mp hcheck _ hmem) (by simp [Expr.check])
    rw [he]
    refine ⟨fun hc => absurd hc (by simp [Expr.check]), fun row => ?_⟩
    rw [Expr.eval_ref_selected, h.selects.aggregates f hf name args he, Expr.onGroup,
      Expr.keyPart?_eq_none hnot]
    rfl
  · have hmem := h.selects.grouped f hf fun name args he => hagg ⟨name, args, he⟩
    obtain ⟨i, hi⟩ := List.getElem?_of_mem hmem
    refine .of_mem hcheck h hmem fun _ => ?_
    rw [Expr.eval_ref_selected, h.selects.parts hkeeps f hf i hi, ← h.parts i _ hi]
    rfl

/-- An expression that SELECT has as a whole is read from its field. -/
theorem reads_selected (hcheck : Expr.checkAll q.groupBy = .ok ()) (hkeeps : q.KeepsKey)
    (h : q.Shows key members x selected) {s : Expr}
    (hs : Expr.selectedAs? (q.select.getD []) e = some s)
    (he : e.throughSelect (q.select.getD []) = .ok e') :
    q.Reads key members x selected e e' := by
  obtain rfl := Except.ok.inj ((Expr.throughSelect_of_selected hs).symm.trans he)
  obtain ⟨f, hf, rfl, rfl⟩ := Expr.selectedAs?_eq_some hs
  exact reads_field hcheck hkeeps h hf

/-- A call reads what its arguments read. -/
theorem reads_call (hcheck : Expr.checkAll q.groupBy = .ok ())
    (h : q.Shows key members x selected) (name : String) {args args' : List Expr}
    (hargs : List.Forall₂ (q.Reads key members x selected) args args') :
    q.Reads key members x selected (.call name args) (.call name args') := by
  have hmember : (Expr.call name args).check = .ok () →
      (Expr.call name args').eval (.ofSelected selected) = (Expr.call name args).eval x := by
    intro hc
    have hboth := (List.forall₂_and_left _ _).mpr ⟨Expr.check_of_call hc, hargs⟩
    refine Expr.eval_call_congr name ?_
    rw [Expr.evalAll_eq_map x]
    exact Expr.evalAll_of_forall₂ (hboth.imp fun _ _ ⟨hc, hreads⟩ => hreads.member hc)
  by_cases hmem : Expr.call name args ∈ q.groupBy
  · exact .of_mem hcheck h hmem hmember
  · refine ⟨hmember, fun row => ?_⟩
    rw [Expr.onGroup, Expr.keyPart?_eq_none hmem]
    refine Expr.eval_call_congr name ?_
    rw [Expr.onGroupAll_eq_map, Expr.evalAll_eq_map row, List.map_map]
    exact Expr.evalAll_of_forall₂ (hargs.imp fun _ _ hreads => hreads.group row)

/-- **Reading through SELECT is reading the group**, for expressions that are built from what SELECT
shows of the key. -/
theorem reads_throughSelect (hcheck : Expr.checkAll q.groupBy = .ok ()) (hkeeps : q.KeepsKey)
    (h : q.Shows key members x selected) (hb : e.BuiltFrom q.shownKeys)
    (he : e.throughSelect (q.select.getD []) = .ok e') :
    q.Reads key members x selected e e' := by
  induction hb generalizing e' with
  | @part e hmem =>
    obtain ⟨-, hany⟩ := List.mem_filter.mp hmem
    obtain ⟨f, hf⟩ := Option.isSome_iff_exists.mp (List.find?_isSome.mpr (List.any_eq_true.mp hany))
    exact reads_selected hcheck hkeeps h (congrArg _ hf) he
  | literal v =>
    cases hs : Expr.selectedAs? (q.select.getD []) (.literal v) with
    | some s => exact reads_selected hcheck hkeeps h hs he
    | none =>
      rw [Expr.throughSelect, hs] at he
      obtain rfl := Except.ok.inj he
      by_cases hmem : Expr.literal v ∈ q.groupBy
      · exact .of_mem hcheck h hmem fun _ => rfl
      · refine ⟨fun _ => rfl, fun row => ?_⟩
        rw [Expr.onGroup, Expr.keyPart?_eq_none hmem]
        rfl
  | aggregate name args =>
    cases hs : Expr.selectedAs? (q.select.getD []) (.aggregate name args) with
    | some s => exact reads_selected hcheck hkeeps h hs he
    | none =>
      rw [Expr.throughSelect, hs] at he
      cases he
  | @call name args _ ih =>
    cases hs : Expr.selectedAs? (q.select.getD []) (.call name args) with
    | some s => exact reads_selected hcheck hkeeps h hs he
    | none =>
      rw [Expr.throughSelect, hs] at he
      obtain ⟨args', hargs, rfl⟩ := map_eq_ok.mp he
      have hboth := (List.forall₂_and_left _ _).mpr
        ⟨fun e hmem => @ih e hmem, Expr.throughSelectAll_eq_ok hargs⟩
      exact reads_call hcheck h name (hboth.imp fun _ _ ⟨hreads, he⟩ => hreads he)

/-! ## Clauses of a grouped level -/

theorem afterSelect?_eq_ok {fields : List SelectField} (hs : q.select = some fields)
    (h : q.afterSelect? true e = .ok e') : e.throughSelect fields = .ok e' ∧ e'.check = .ok () := by
  unfold afterSelect? at h
  rw [hs] at h
  obtain ⟨e₁, he, h⟩ := bind_eq_ok.mp h
  obtain ⟨⟨⟩, hc, h⟩ := bind_eq_ok.mp h
  obtain rfl := Except.ok.inj h
  exact ⟨he, hc⟩

/-- The expressions in HAVING and ORDER BY. -/
def clauses (q : Query) : List Expr := q.having.map (·.expr) ++ q.orderBy.map (·.expr)

/-- The clauses of a grouped level that has a plan can be read through SELECT. -/
theorem exists_throughSelect {p : Plan} (hp : Plan.ofQuery? q = .ok p) (hg : q.isGrouped = true)
    {fields : List SelectField} (hs : q.select = some fields) :
    ∀ e ∈ q.clauses, ∃ e', e.throughSelect fields = .ok e' ∧ e'.check = .ok () := by
  obtain ⟨-, main, sources, -, -, hplan⟩ := Plan.ofQuery?_eq_ok.mp hp
  obtain ⟨-, -, h⟩ := plan?_eq_ok.mp hplan
  obtain ⟨selected, -, h⟩ := bind_eq_ok.mp h
  obtain ⟨kept, hk, h⟩ := bind_eq_ok.mp h
  obtain ⟨ordered, ho, -⟩ := bind_eq_ok.mp h
  intro e he
  rcases List.mem_append.mp he with he | he
  · obtain ⟨c, hc, rfl⟩ := List.mem_map.mp he
    obtain ⟨conditions, hconditions, -⟩ := bind_eq_ok.mp hk
    obtain ⟨e', he'⟩ := exists_of_mapM_eq_ok hconditions hc
    rw [hg] at he'
    exact ⟨e', afterSelect?_eq_ok hs he'⟩
  · obtain ⟨t, ht, rfl⟩ := List.mem_map.mp he
    obtain ⟨terms, hterms, -⟩ := bind_eq_ok.mp ho
    obtain ⟨t', ht'⟩ := exists_of_mapM_eq_ok hterms ht
    obtain ⟨e', he', -⟩ := bind_eq_ok.mp ht'
    rw [hg] at he'
    exact ⟨e', afterSelect?_eq_ok hs he'⟩

/-- **HAVING and ORDER BY mean what they say on rows of groups.** All of their expressions can be
read through SELECT. On each row that the grouping of the level emits, whatever came to it before,
an expression that is read through SELECT has the value that it has with the values of the group in
it, if it is built from what SELECT shows of the key, from aggregates and from literals, and if no
aggregate takes the name of the key's field. -/
theorem clauses_read_group {p : Plan} (hp : Plan.ofQuery? q = .ok p) (hg : q.isGrouped = true)
    {fields : List SelectField} (hs : q.select = some fields)
    (hlabels : (fields.map (·.label)).Nodup) (hkeeps : q.KeepsKey) :
    (∀ e ∈ q.clauses, ∃ e', e.throughSelect fields = .ok e' ∧ e'.check = .ok ()) ∧
      ∃ terms sources, q.groupTerms? = .ok terms ∧ q.planSources? = .ok sources ∧
        (Plan.group terms (q.planFilters sources)).Within p ∧
        ∀ batches d, ∀ r ∈ terms.emitted batches d, ∃ key members,
          terms.EmitsGroup batches.flatten (batches.flatten ++ d) r key members ∧
          ∀ e e' : Expr, e.BuiltFrom q.shownKeys → e.throughSelect fields = .ok e' →
            ∀ row, e'.eval r.1.value = (e.onGroup q.groupBy key members).eval row := by
  have hfields : q.select.getD [] = fields := by
    rw [hs]
    rfl
  rw [← hfields] at hlabels ⊢
  refine ⟨hfields ▸ exists_throughSelect hp hg hs, ?_⟩
  obtain ⟨terms, sources, hterms, hsources, hwithin⟩ := exists_groupTerms hp hg
  obtain ⟨hcheck, -⟩ := groupTerms?_eq_ok hterms
  refine ⟨terms, sources, hterms, hsources, hwithin, fun batches d r hr => ?_⟩
  obtain ⟨key, members, selected, hgroup, hshows, hvalue⟩ := emitted_shows hterms hlabels hr
  obtain ⟨x, hx⟩ := hgroup.exists_mem
  refine ⟨key, members, hgroup, fun e e' hb he row => ?_⟩
  rw [hvalue]
  exact (reads_throughSelect hcheck hkeeps (hshows x hx) hb he).group row

/-- A condition on a count and on the key, of groups that SELECT shows with both: it holds of a row
just if the group of "x" has more than one member. -/
theorem clauses_read_group_of_count :
    let k : Expr := .ref ["t", "k"]
    let count : Expr := .aggregate "count" []
    let condition : Expr :=
      .call "and" [.call "gt" [count, .literal (.int 1)], .call "eq" [k, .literal (.string "x")]]
    let onSelected : Expr := .call "and" [.call "gt" [.ref ["$selected", "n"], .literal (.int 1)],
      .call "eq" [.ref ["$selected", "k"], .literal (.string "x")]]
    let q : Query :=
      { source := .collection "t" "t", select := some [⟨"k", k⟩, ⟨"n", count⟩], groupBy := [k]
        having := [⟨condition, false⟩] }
    ∃ p terms, Plan.ofQuery? q = .ok p ∧ q.groupTerms? = .ok terms ∧
      condition.throughSelect (q.select.getD []) = .ok onSelected ∧
      ∀ batches d, ∀ r ∈ terms.emitted batches d, ∃ key members,
        terms.EmitsGroup batches.flatten (batches.flatten ++ d) r key members ∧
        onSelected.holds r.1.value =
          (((Expr.aggregateValue "count" [] members).compare? (.int 1)).any (·.isGT) &&
            key.valuesEqual (.string "x")) := by
  intro k count condition onSelected q
  obtain ⟨p, hp⟩ : ∃ p, Plan.ofQuery? q = .ok p := ⟨_, rfl⟩
  have hkeeps : q.KeepsKey := by
    rintro f hf name args he
    rcases List.mem_pair.mp hf with rfl | rfl
    · cases he
    · decide
  have hbuilt : condition.BuiltFrom q.shownKeys := by
    refine .call "and" fun e he => ?_
    rcases List.mem_pair.mp he with rfl | rfl
    · refine .call "gt" fun e he => ?_
      rcases List.mem_pair.mp he with rfl | rfl
      · exact .aggregate "count" []
      · exact .literal (.int 1)
    · refine .call "eq" fun e he => ?_
      rcases List.mem_pair.mp he with rfl | rfl
      · exact .part (by decide +kernel)
      · exact .literal (.string "x")
  obtain ⟨-, terms, sources, hterms, -, -, hrows⟩ :=
    clauses_read_group hp rfl rfl (by decide +kernel) hkeeps
  refine ⟨p, terms, hp, hterms, rfl, fun batches d r hr => ?_⟩
  obtain ⟨key, members, hgroup, hreads⟩ := hrows batches d r hr
  refine ⟨key, members, hgroup, ?_⟩
  rw [Expr.holds, hreads condition onSelected hbuilt rfl .null]
  show (_ && (_ && true)) = _
  rw [Bool.and_true]
  rfl

/-- A condition on a key that SELECT does not show: the row of the group of "x" is asked for a field
of the source, which is no longer there, and refuses what holds of the group. -/
theorem clauses_read_nothing :
    let k : Expr := .ref ["t", "k"]
    let condition : Expr := .call "eq" [k, .literal (.string "x")]
    let q : Query :=
      { source := .collection "t" "t", select := some [⟨"n", .aggregate "count" []⟩], groupBy := [k]
        having := [⟨condition, false⟩] }
    let terms : GroupTerms := ⟨[k], [⟨"n", .count, .literal (.int 1)⟩], [("n", .aggregate "n")]⟩
    let row : Row :=
      { key := .plain (.int 1), value := .object [("t", .object [("k", .string "x")])] }
    let r : Row × Int :=
      ({ key := .plain (.string "x"), value := .ofSelected (.object [("n", .int 1)]) }, 1)
    (∃ p, Plan.ofQuery? q = .ok p) ∧ q.isGrouped = true ∧
      ((q.select.getD []).map (·.label)).Nodup ∧ condition ∈ q.clauses ∧
      condition.BuiltFrom q.groupBy ∧ q.groupTerms? = .ok terms ∧
      terms.emitted [] [(row, 1)] = [r] ∧
      terms.EmitsGroup [] [(row, 1)] r (.string "x") [(row, 1)] ∧
      condition.throughSelect (q.select.getD []) = .ok condition ∧
      condition.eval r.1.value ≠
        (condition.onGroup q.groupBy (.string "x") [(row, 1)]).eval r.1.value := by
  intro k condition q terms row r
  have hbuilt : condition.BuiltFrom q.groupBy := by
    refine .call "eq" fun e he => ?_
    rcases List.mem_pair.mp he with rfl | rfl
    · exact .part List.mem_cons_self
    · exact .literal (.string "x")
  refine ⟨⟨_, rfl⟩, rfl, by decide +kernel, List.mem_cons_self, hbuilt, rfl, by decide +kernel,
    ⟨rfl, Or.inr ⟨rfl, ?_⟩, by decide⟩, rfl, by decide +kernel⟩
  decide +kernel

end Level

end DeltaView
