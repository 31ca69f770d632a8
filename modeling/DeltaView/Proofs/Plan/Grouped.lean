import DeltaView.Proofs.Expr.Conjunct
import DeltaView.Proofs.Group.Run
import DeltaView.Proofs.Plan.Within
import DeltaView.Proofs.Value.Fields

/-!
# Rows of groups

The grouping of a level puts out one row for a group, in which the key and the aggregates stand side
by side under names, and then selects from that row what SELECT asks for.

* `GroupTerms.emitted`, `EmitsGroup`, **`mem_emitted`**: what a grouping emits for a batch, and that
  every entry is the row of a group before the batch or after it.
* `GroupTerms.keyPart_groupKey`: a part of the key is the value of its expression on all members.
* `GroupTerms.field?_select`, `read_aggregate`, `read_keyPart`: what is selected of a group's row.
* `Level.groupField?_eq_ok`, `groupTerms?_eq_ok`: a field of SELECT is an aggregate, or one of the
  expressions that are grouped by.
* `Level.SelectsGroup`, `Shows`, **`emitted_shows`**: what SELECT says of a group is selected of it.
* **`grouped_rows_carry_select`**: so an emitted row has the aggregates that SELECT asks for. It has
  the parts of the key as well, unless an aggregate takes the name of the field that the key is in.
-/

namespace DeltaView

/-- The value of an aggregate on the members of a group. Without an argument it counts them. -/
def Expr.aggregateValue (name : String) (args : List Expr) (members : Delta Row) : Value :=
  match AggregateKind.ofName? name with
  | some kind =>
    Aggregate.compute ⟨name, kind, fun row => (args.headD (.literal (.int 1))).eval row⟩ members
  | none => .null

namespace GroupTerms

/-! ## Parts of keys -/

/-- **A part of a key is the value of its expression** on every row with that key. -/
theorem keyPart_groupKey {keys : List Expr} {i : Nat} {e : Expr} (h : keys[i]? = some e)
    (row : Value) : keyPart keys.length (groupKey keys row) i = e.eval row := by
  match keys, h with
  | [e'], h =>
    obtain ⟨hi, rfl⟩ := List.getElem?_eq_some_iff.mp h
    obtain rfl : i = 0 := by simpa using hi
    rfl
  | e₁ :: e₂ :: es, h =>
    have hparts : ((e₁ :: e₂ :: es).map fun e => e.eval row)[i]? = some (e.eval row) := by
      rw [List.getElem?_map, h]
      rfl
    have hlen : (e₁ :: e₂ :: es).length ≠ 1 := by simp
    unfold keyPart
    rw [if_neg hlen]
    exact congrArg (·.getD .null) hparts

/-! ## What is emitted -/

variable {g : GroupTerms} {batches : List (Delta Row)} {d before after : Delta Row}
  {entry : Row × Int} {key : Value} {members : Delta Row}

/-- What the grouping of a level emits for a batch that comes after others. -/
def emitted (g : GroupTerms) (batches : List (Delta Row)) (d : Delta Row) : Delta Row :=
  Delta.mapItems (Plan.withGroupFields g) ((GroupState.run g.rule .empty batches).1.step g.rule d).2

/-- An entry is about a group: it takes the row back that the group had before a batch, or puts the
row out that it has after the batch. -/
structure EmitsGroup (g : GroupTerms) (before after : Delta Row) (entry : Row × Int) (key : Value)
    (members : Delta Row) : Prop where
  key_eq : entry.1.key = .plain key
  members_perm : (entry.2 = -1 ∧ members.Perm (g.rule.members before key)) ∨
    (entry.2 = 1 ∧ members.Perm (g.rule.members after key))
  mass_pos : 0 < Delta.mass members

theorem EmitsGroup.groupKey_eq (h : g.EmitsGroup before after entry key members) :
    ∀ x ∈ members, groupKey g.keys x.1.value = key := fun x hx => by
  rcases h.members_perm with ⟨-, hp⟩ | ⟨-, hp⟩
  · exact GroupRule.key_of_mem (hp.mem_iff.mp hx)
  · exact GroupRule.key_of_mem (hp.mem_iff.mp hx)

/-- A group with a row has a member. -/
theorem EmitsGroup.exists_mem (h : g.EmitsGroup before after entry key members) :
    ∃ x, x ∈ members := by
  have hmass := h.mass_pos
  cases members with
  | nil => exact absurd hmass (by decide)
  | cons x members => exact ⟨x, List.mem_cons_self⟩

/-- **Every entry is about a group**, of whose row it holds what is selected. -/
theorem mem_emitted (h : entry ∈ g.emitted batches d) :
    ∃ key members, g.EmitsGroup batches.flatten (batches.flatten ++ d) entry key members ∧
      entry.1.value =
        .ofSelected (g.select (.object (GroupState.groupFields g.rule key members))) := by
  obtain ⟨⟨r, m⟩, hp, rfl⟩ := List.mem_map.mp h
  have hs := GroupState.run_spec (.empty g.rule) batches
  obtain ⟨hs', -⟩ := GroupState.step_exact hs d
  obtain ⟨k, hk, -, ⟨hm, hrow⟩ | ⟨hm, hrow⟩⟩ := GroupState.step_mem hs hp
  · obtain ⟨hmass, rfl⟩ := GroupState.rowOf?_eq_some.mp hrow
    exact ⟨k, _, ⟨hk, Or.inl ⟨hm, hs.members_perm k⟩, hmass⟩, rfl⟩
  · obtain ⟨hmass, rfl⟩ := GroupState.rowOf?_eq_some.mp hrow
    exact ⟨k, _, ⟨hk, Or.inr ⟨hm, hs'.members_perm k⟩, hmass⟩, rfl⟩

/-! ## What is selected -/

/-- A selected field is read from the row of the group. -/
theorem field?_select (hn : (g.fields.map (·.1)).Nodup) {label : String} {field : GroupField}
    (hm : (label, field) ∈ g.fields) (row : Value) :
    (g.select row).field? label = some (g.read row field) := by
  refine Value.field?_ofFields_of_mem ?_ (List.mem_map.mpr ⟨_, hm, rfl⟩)
  rw [List.map_map]
  exact hn

/-- The names of the aggregates in the row of a group. -/
theorem map_fst_computed (g : GroupTerms) (members : Delta Row) :
    (g.rule.aggregates.map fun a => (a.label, a.compute members)).map (·.1) =
      g.aggregates.map (·.label) := by
  simp only [rule, List.map_map]
  rfl

/-- Aggregates with different names are found in the row of a group. -/
theorem read_aggregate (hn : (g.aggregates.map (·.label)).Nodup) {a : AggregateTerm}
    (ha : a ∈ g.aggregates) (key : Value) (members : Delta Row) :
    g.read (.object (GroupState.groupFields g.rule key members)) (.aggregate a.label) =
      Aggregate.compute ⟨a.label, a.kind, fun row => a.arg.eval row⟩ members := by
  rw [← g.map_fst_computed members] at hn
  have hlookup := Value.lookup_of_mem hn (List.mem_map.mpr ⟨_, List.mem_map_of_mem ha, rfl⟩)
  show (Value.lookup a.label (Value.setFields _ _)).getD .null = _
  rw [Value.lookup_setFields hn, hlookup]
  rfl

/-- The key is found in the row of a group, if no aggregate has the name of its field. -/
theorem read_keyPart (hn : (g.aggregates.map (·.label)).Nodup)
    (hkey : GroupState.keyField ∉ g.aggregates.map (·.label)) (i : Nat) (key : Value)
    (members : Delta Row) :
    g.read (.object (GroupState.groupFields g.rule key members)) (.keyPart i) =
      keyPart g.keys.length key i := by
  rw [← g.map_fst_computed members] at hn hkey
  show keyPart _ ((Value.lookup GroupState.keyField (Value.setFields _ _)).getD .null) i = _
  rw [Value.lookup_setFields hn, Value.lookup_eq_none hkey]
  rfl

end GroupTerms

namespace Level

/-! ## Fields of SELECT over groups -/

variable {q : Query} {terms : GroupTerms} {groupBy : List Expr} {f : SelectField}

theorem aggregateTerm?_eq_ok {label name : String} {args : List Expr} {a : AggregateTerm}
    (h : aggregateTerm? label name args = .ok a) :
    a.label = label ∧ ∀ members, Expr.aggregateValue name args members =
      Aggregate.compute ⟨a.label, a.kind, fun row => a.arg.eval row⟩ members := by
  unfold aggregateTerm? at h
  unfold Expr.aggregateValue
  cases hkind : AggregateKind.ofName? name with
  | none =>
    rw [hkind] at h
    cases h
  | some kind =>
    rw [hkind] at h
    obtain ⟨-, -, rfl⟩ := map_eq_ok.mp h
    exact ⟨rfl, fun _ => rfl⟩

/-- **A field of SELECT is an aggregate, or one of the expressions that are grouped by.** -/
theorem groupField?_eq_ok {part : GroupField × Option AggregateTerm}
    (h : groupField? groupBy f = .ok part) :
    (∃ name args a, f.expr = .aggregate name args ∧ aggregateTerm? f.label name args = .ok a ∧
        part = (.aggregate f.label, some a)) ∨
      ((∀ name args, f.expr ≠ .aggregate name args) ∧
        ∃ i, groupBy[i]? = some f.expr ∧ part = (.keyPart i, none)) := by
  obtain ⟨label, e⟩ := f
  unfold groupField? at h
  dsimp only at h ⊢
  split at h
  · obtain ⟨a, ha, rfl⟩ := map_eq_ok.mp h
    exact Or.inl ⟨_, _, a, rfl, ha, rfl⟩
  · rename_i hne
    split at h
    · cases h
    · rename_i position _ hposition
      obtain rfl := Except.ok.inj h
      obtain ⟨hi, he, -⟩ := List.findIdx?_eq_some_iff_getElem.mp hposition
      exact Or.inr ⟨hne, position,
        List.getElem?_eq_some_iff.mpr ⟨hi, eq_of_beq he⟩, rfl⟩
    · cases h

/-- The terms of a grouping have the key that the level groups by. -/
theorem groupTerms?_eq_ok (h : q.groupTerms? = .ok terms) :
    Expr.checkAll q.groupBy = .ok () ∧ terms.keys = q.groupBy ∧
      ((q.select = none ∧ terms.aggregates = [] ∧ terms.fields = keyFields q.groupBy.length) ∨
        ∃ fields parts, q.select = some fields ∧
          List.Forall₂ (fun f part => groupField? q.groupBy f = .ok part) fields parts ∧
          terms.aggregates = parts.filterMap (·.2) ∧
          terms.fields = (fields.map (·.label)).zip (parts.map (·.1))) := by
  obtain ⟨⟨⟩, hcheck, h⟩ := bind_eq_ok.mp h
  refine ⟨hcheck, ?_⟩
  split at h
  · rename_i hnone
    obtain rfl := Except.ok.inj h
    exact ⟨rfl, Or.inl ⟨hnone, rfl, rfl⟩⟩
  · rename_i fields hfields
    obtain ⟨parts, hparts, h⟩ := bind_eq_ok.mp h
    obtain rfl := Except.ok.inj h
    exact ⟨rfl, Or.inr ⟨fields, parts, hfields, mapM_eq_ok.mp hparts, rfl, rfl⟩⟩

variable {fields : List SelectField} {parts : List (GroupField × Option AggregateTerm)}

/-- Every field of SELECT is made into one of the grouping. -/
theorem exists_groupField
    (h : List.Forall₂ (fun f part => groupField? groupBy f = .ok part) fields parts)
    (hf : f ∈ fields) : ∃ part ∈ parts, groupField? groupBy f = .ok part ∧
      (f.label, part.1) ∈ (fields.map (·.label)).zip (parts.map (·.1)) := by
  induction h with
  | nil => cases hf
  | @cons f' part fields parts hpart _ ih =>
    rw [List.map_cons, List.map_cons, List.zip_cons_cons]
    rcases List.mem_cons.mp hf with rfl | hf
    · exact ⟨part, List.mem_cons_self, hpart, List.mem_cons_self⟩
    · obtain ⟨part', hmem, hpart', hzip⟩ := ih hf
      exact ⟨part', List.mem_cons_of_mem _ hmem, hpart', List.mem_cons_of_mem _ hzip⟩

/-- The aggregates of the grouping are named by those of SELECT. -/
theorem exists_aggregate_fields
    (h : List.Forall₂ (fun f part => groupField? groupBy f = .ok part) fields parts) :
    ∃ chosen : List SelectField, chosen.Sublist fields ∧
      (∀ f ∈ chosen, ∃ name args, f.expr = .aggregate name args) ∧
      (parts.filterMap (·.2)).map (·.label) = chosen.map (·.label) := by
  induction h with
  | nil => exact ⟨[], .slnil, List.forall_mem_nil _, rfl⟩
  | @cons f part fields parts hpart _ ih =>
    obtain ⟨chosen, hsub, hall, hlabels⟩ := ih
    rcases groupField?_eq_ok hpart with ⟨name, args, a, he, ha, rfl⟩ | ⟨-, i, -, rfl⟩
    · refine ⟨f :: chosen, hsub.cons_cons f,
        List.forall_mem_cons.mpr ⟨⟨name, args, he⟩, hall⟩, ?_⟩
      rw [List.filterMap_cons, List.map_cons, List.map_cons, hlabels, (aggregateTerm?_eq_ok ha).1]
    · exact ⟨chosen, hsub.cons f, hall, by rw [List.filterMap_cons, hlabels]⟩

theorem keyName_injective : Function.Injective fun i : Nat => s!"__key_{i}" := fun i j h => by
  have hdigits : Nat.toDigits 10 i = Nat.toDigits 10 j := by
    simpa using congrArg String.toList h
  have hvalue := congrArg (Nat.ofDigitChars 10 · 0) hdigits
  simpa [Nat.ofDigitChars_toDigits] using hvalue

/-! ## Rows of a grouped level -/

/-- The row of a group keeps its key: no aggregate takes the name of the key's field. -/
def KeepsKey (q : Query) : Prop :=
  ∀ f ∈ q.select.getD [], ∀ name args, f.expr = .aggregate name args →
    f.label ≠ GroupState.keyField

/-- **What is selected is what SELECT says of a group**: its aggregates and the parts of its key, or
all parts of its key in order. -/
structure SelectsGroup (q : Query) (key : Value) (members : Delta Row) (selected : Value) :
    Prop where
  aggregates : ∀ f ∈ q.select.getD [], ∀ name args, f.expr = .aggregate name args →
    selected.field? f.label = some (Expr.aggregateValue name args members)
  grouped : ∀ f ∈ q.select.getD [], (∀ name args, f.expr ≠ .aggregate name args) →
    f.expr ∈ q.groupBy
  parts : q.KeepsKey → ∀ f ∈ q.select.getD [], ∀ i, q.groupBy[i]? = some f.expr →
    selected.field? f.label = some (GroupTerms.keyPart q.groupBy.length key i)
  numbered : q.select = none → ∀ i < q.groupBy.length,
    selected.field? s!"__key_{i}" = some (GroupTerms.keyPart q.groupBy.length key i)

/-- A field of SELECT, as the grouping of the level has it. -/
theorem field_of_groupTerms (h : q.groupTerms? = .ok terms) (hf : f ∈ q.select.getD []) :
    (∃ name args a, f.expr = .aggregate name args ∧ aggregateTerm? f.label name args = .ok a ∧
        a ∈ terms.aggregates ∧ (f.label, .aggregate f.label) ∈ terms.fields) ∨
      ((∀ name args, f.expr ≠ .aggregate name args) ∧
        ∃ i, q.groupBy[i]? = some f.expr ∧ (f.label, .keyPart i) ∈ terms.fields) := by
  obtain ⟨-, -, ⟨hnone, -, -⟩ | ⟨fields, parts, hsome, hparts, haggregates, hfields⟩⟩ :=
    groupTerms?_eq_ok h
  · rw [hnone] at hf
    cases hf
  · rw [hsome] at hf
    rw [haggregates, hfields]
    obtain ⟨part, hmem, hpart, hzip⟩ := exists_groupField hparts hf
    rcases groupField?_eq_ok hpart with ⟨name, args, a, he, ha, rfl⟩ | ⟨hne, i, hi, rfl⟩
    · exact Or.inl ⟨name, args, a, he, ha, List.mem_filterMap.mpr ⟨_, hmem, rfl⟩, hzip⟩
    · exact Or.inr ⟨hne, i, hi, hzip⟩

/-- What a grouping reads and makes has different names if the fields of SELECT have. -/
theorem labels_of_groupTerms (h : q.groupTerms? = .ok terms)
    (hlabels : ((q.select.getD []).map (·.label)).Nodup) :
    (terms.fields.map (·.1)).Nodup ∧ (terms.aggregates.map (·.label)).Nodup ∧
      (q.KeepsKey → GroupState.keyField ∉ terms.aggregates.map (·.label)) := by
  obtain ⟨-, -, ⟨-, haggregates, hfields⟩ | ⟨fields, parts, hsome, hparts, haggregates, hfields⟩⟩ :=
    groupTerms?_eq_ok h
  · rw [haggregates, hfields, keyFields, List.map_map]
    exact ⟨List.nodup_range.map keyName_injective, List.nodup_nil, fun _ => List.not_mem_nil⟩
  · rw [hsome] at hlabels
    obtain ⟨chosen, hsub, hall, hchosen⟩ := exists_aggregate_fields hparts
    have hlength : (fields.map (·.label)).length ≤ (parts.map (·.1)).length := by
      rw [List.length_map, List.length_map, hparts.length_eq]
    rw [haggregates, hfields, hchosen, List.map_fst_zip hlength]
    refine ⟨hlabels, hlabels.sublist (hsub.map _), fun hkeeps hkey => ?_⟩
    obtain ⟨f, hf, hlabel⟩ := List.mem_map.mp hkey
    obtain ⟨name, args, he⟩ := hall f hf
    refine hkeeps f ?_ name args he hlabel
    rw [hsome]
    exact hsub.subset hf

/-- **What is selected of a group** with the key of some row. -/
theorem selectsGroup_select (h : q.groupTerms? = .ok terms)
    (hlabels : ((q.select.getD []).map (·.label)).Nodup) (row : Value) (members : Delta Row) :
    q.SelectsGroup (GroupTerms.groupKey q.groupBy row) members (terms.select (.object
      (GroupState.groupFields terms.rule (GroupTerms.groupKey q.groupBy row) members))) := by
  obtain ⟨hcheck, hkeys, hshape⟩ := groupTerms?_eq_ok h
  obtain ⟨hnames, haggregates, hkey⟩ := labels_of_groupTerms h hlabels
  refine ⟨fun f hf name args he => ?_, fun f hf hne => ?_, fun hkeeps f hf i hi => ?_,
    fun hnone i hi => ?_⟩
  · rcases field_of_groupTerms h hf with ⟨name', args', a, he', ha, hmem, hfield⟩ | ⟨hne, -⟩
    · obtain ⟨rfl, rfl⟩ := Expr.aggregate.inj (he.symm.trans he')
      obtain ⟨hlabel, hvalue⟩ := aggregateTerm?_eq_ok ha
      rw [GroupTerms.field?_select hnames hfield, ← hlabel,
        GroupTerms.read_aggregate haggregates hmem, hvalue]
    · exact absurd he (hne name args)
  · rcases field_of_groupTerms h hf with ⟨name, args, -, he, -⟩ | ⟨-, i, hi, -⟩
    · exact absurd he (hne name args)
    · exact List.mem_of_getElem? hi
  · rcases field_of_groupTerms h hf with ⟨name, args, -, he, -⟩ | ⟨-, j, hj, hfield⟩
    · -- An aggregate is nothing to group by.
      have hgrouped := Expr.checkAll_eq_ok_iff.mp hcheck f.expr (List.mem_of_getElem? hi)
      rw [he] at hgrouped
      cases hgrouped
    · rw [GroupTerms.field?_select hnames hfield, GroupTerms.read_keyPart haggregates (hkey hkeeps),
        hkeys, GroupTerms.keyPart_groupKey hi, GroupTerms.keyPart_groupKey hj]
  · obtain ⟨-, -, hfields⟩ | ⟨fields, -, hsome, -⟩ := hshape
    · have hmem : (s!"__key_{i}", GroupField.keyPart i) ∈ terms.fields := by
        rw [hfields]
        exact List.mem_map.mpr ⟨i, List.mem_range.mpr hi, rfl⟩
      have hkeeps : q.KeepsKey := fun f hf => by
        rw [hnone] at hf
        cases hf
      rw [GroupTerms.field?_select hnames hmem, GroupTerms.read_keyPart haggregates (hkey hkeeps),
        hkeys]
    · rw [hnone] at hsome
      cases hsome

/-- A group is shown: what is selected is what SELECT says of it, and the parts of its key are what
the expressions are on a member. -/
structure Shows (q : Query) (key : Value) (members : Delta Row) (x selected : Value) : Prop where
  selects : q.SelectsGroup key members selected
  parts : ∀ (i : Nat) (c : Expr), q.groupBy[i]? = some c →
    GroupTerms.keyPart q.groupBy.length key i = c.eval x

/-- **Every row that a grouping emits shows its group.** -/
theorem emitted_shows (h : q.groupTerms? = .ok terms)
    (hlabels : ((q.select.getD []).map (·.label)).Nodup) {batches : List (Delta Row)}
    {d : Delta Row} {e : Row × Int} (he : e ∈ terms.emitted batches d) :
    ∃ key members selected, terms.EmitsGroup batches.flatten (batches.flatten ++ d) e key members ∧
      (∀ x ∈ members, q.Shows key members x.1.value selected) ∧
      e.1.value = .ofSelected selected := by
  obtain ⟨-, hkeys, -⟩ := groupTerms?_eq_ok h
  obtain ⟨key, members, hgroup, hvalue⟩ := GroupTerms.mem_emitted he
  refine ⟨key, members, _, hgroup, fun x hx => ?_, hvalue⟩
  have hkey : GroupTerms.groupKey q.groupBy x.1.value = key := hkeys ▸ hgroup.groupKey_eq x hx
  rw [← hkey]
  exact ⟨selectsGroup_select h hlabels x.1.value members,
    fun _ _ hc => GroupTerms.keyPart_groupKey hc _⟩

/-- The plan of a grouped level groups the rows that its conditions leave. -/
theorem exists_groupTerms {p : Plan} (hp : Plan.ofQuery? q = .ok p) (hg : q.isGrouped = true) :
    ∃ terms sources, q.groupTerms? = .ok terms ∧ q.planSources? = .ok sources ∧
      (Plan.group terms (q.planFilters sources)).Within p := by
  obtain ⟨-, main, sources, hmain, hsources, hplan⟩ := Plan.ofQuery?_eq_ok.mp hp
  obtain ⟨selected, hselected, hwithin, -⟩ := plan?_within hplan
  unfold planSelect? at hselected
  rw [if_pos hg] at hselected
  obtain ⟨terms, hterms, rfl⟩ := map_eq_ok.mp hselected
  exact ⟨terms, sources, hterms, bind_eq_ok.mpr ⟨main, hmain, hsources⟩, hwithin⟩

/-- **Grouped rows carry what SELECT says.** Whatever batches have come to the grouping of a level
before, each row that it emits for the next one is that of a group with members, before the batch or
after it. It holds, for each field of SELECT, that aggregate of the group or, if no aggregate takes
the name of the key's field, that part of its key; and a part of the key is the value of its
expression on each of the members. -/
theorem grouped_rows_carry_select {p : Plan} (hp : Plan.ofQuery? q = .ok p)
    (hg : q.isGrouped = true) (hlabels : ((q.select.getD []).map (·.label)).Nodup) :
    ∃ terms sources, q.groupTerms? = .ok terms ∧ q.planSources? = .ok sources ∧
      (Plan.group terms (q.planFilters sources)).Within p ∧
      ∀ batches d, ∀ e ∈ terms.emitted batches d, ∃ key members selected,
        terms.EmitsGroup batches.flatten (batches.flatten ++ d) e key members ∧
        (∀ x ∈ members, ∀ (i : Nat) (c : Expr), q.groupBy[i]? = some c →
          GroupTerms.keyPart q.groupBy.length key i = c.eval x.1.value) ∧
        e.1.value = .ofSelected selected ∧ q.SelectsGroup key members selected := by
  obtain ⟨terms, sources, hterms, hsources, hwithin⟩ := exists_groupTerms hp hg
  refine ⟨terms, sources, hterms, hsources, hwithin, fun batches d e he => ?_⟩
  obtain ⟨key, members, selected, hgroup, hshows, hvalue⟩ := emitted_shows hterms hlabels he
  obtain ⟨x, hx⟩ := hgroup.exists_mem
  exact ⟨key, members, selected, hgroup, fun x hx => (hshows x hx).parts, hvalue,
    (hshows x hx).selects⟩

/-- Grouped by two expressions, of which SELECT shows the second one: the row of a group has it as
it is on each of the members, beside their number. -/
theorem grouped_rows_carry_select_of_two_keys :
    let k : Expr := .ref ["t", "k"]
    let q : Query :=
      { source := .collection "t" "t"
        select := some [⟨"n", .aggregate "count" []⟩, ⟨"k", k⟩]
        groupBy := [.ref ["t", "j"], k] }
    ∃ p terms, Plan.ofQuery? q = .ok p ∧ q.groupTerms? = .ok terms ∧
      ∀ batches d, ∀ e ∈ terms.emitted batches d, ∃ members selected,
        e.1.value = .ofSelected selected ∧
        selected.field? "n" = some (Expr.aggregateValue "count" [] members) ∧
        ∀ x ∈ members, selected.field? "k" = some (k.eval x.1.value) := by
  intro k q
  obtain ⟨p, hp⟩ : ∃ p, Plan.ofQuery? q = .ok p := ⟨_, rfl⟩
  have hkeeps : q.KeepsKey := by
    rintro f hf name args he
    rcases List.mem_pair.mp hf with rfl | rfl
    · decide
    · cases he
  obtain ⟨terms, sources, hterms, -, -, hrows⟩ :=
    grouped_rows_carry_select hp rfl (by decide +kernel)
  refine ⟨p, terms, hp, hterms, fun batches d e he => ?_⟩
  obtain ⟨key, members, selected, -, hparts, hvalue, hselects⟩ := hrows batches d e he
  refine ⟨members, selected, hvalue,
    hselects.aggregates ⟨"n", .aggregate "count" []⟩ List.mem_cons_self "count" [] rfl,
    fun x hx => ?_⟩
  rw [← hparts x hx 1 k rfl]
  exact hselects.parts hkeeps ⟨"k", k⟩ (List.mem_cons_of_mem _ List.mem_cons_self) 1 rfl

/-- An aggregate named like the field of the key takes its place: the row of the group of "x" has
the number of its members for its key. -/
theorem grouped_rows_lose_key :
    let k : Expr := .ref ["t", "k"]
    let q : Query :=
      { source := .collection "t" "t"
        select := some [⟨"__key", .aggregate "count" []⟩, ⟨"k", k⟩]
        groupBy := [k] }
    let terms : GroupTerms := ⟨[k], [⟨"__key", .count, .literal (.int 1)⟩],
      [("__key", .aggregate "__key"), ("k", .keyPart 0)]⟩
    let row : Row :=
      { key := .plain (.int 1), value := .object [("t", .object [("k", .string "x")])] }
    let selected : Value := .object [("__key", .int 1), ("k", .int 1)]
    let e : Row × Int := ({ key := .plain (.string "x"), value := .ofSelected selected }, 1)
    (∃ p, Plan.ofQuery? q = .ok p) ∧ q.isGrouped = true ∧
      ((q.select.getD []).map (·.label)).Nodup ∧ q.groupTerms? = .ok terms ∧
      terms.emitted [] [(row, 1)] = [e] ∧
      terms.EmitsGroup [] [(row, 1)] e (.string "x") [(row, 1)] ∧
      selected.field? "k" ≠ some (GroupTerms.keyPart q.groupBy.length (.string "x") 0) := by
  intro k q terms row selected e
  refine ⟨⟨_, rfl⟩, rfl, by decide +kernel, rfl, by decide +kernel,
    ⟨rfl, Or.inr ⟨rfl, ?_⟩, by decide⟩, by decide +kernel⟩
  decide +kernel

end Level

end DeltaView
