import DeltaView.Proofs.Plan.Nullable

/-!
# Keys of joins

The keys of a join are the two sides of its condition. On the main side that is an expression over
one source that was joined before, on the joined side one over the joined source, so that each key
is there in the rows that it is evaluated on.

* `ofJoins?_append`, `planSources?_join`: each join of a level is within the plan of its sources,
  over the plan of the sources before it.
* `ReadsSides`, **`Suits.readsSides`**: the keys of a suitable condition name sources of their own
  side alone, and have on a joined row the values that they have on its two sides.
* **`orient_iff_suits`**: which conditions are taken, in which order, and what their keys read in
  the plan of a query.
-/

namespace DeltaView

namespace Plan

/-! ## One join of a chain -/

variable {earlier later : List (Join Source)} {j : Join Source} {known : List String}
  {main p : Plan}

/-- A chain of joins goes on from the plan of its first joins. -/
theorem ofJoins?_append (h : ofJoins? main known (earlier ++ later) = .ok p) :
    ∃ rows, ofJoins? main known earlier = .ok rows ∧
      ofJoins? rows (known ++ earlier.map (·.source.label)) later = .ok p := by
  induction earlier generalizing main known with
  | nil => exact ⟨main, rfl, by rwa [List.map_nil, List.append_nil]⟩
  | cons j earlier ih =>
    obtain ⟨kind, source, left, right⟩ := j
    obtain ⟨joined, hjoined, h⟩ := bind_eq_ok.mp h
    obtain ⟨rows, hrows, h⟩ := bind_eq_ok.mp h
    obtain ⟨before, hbefore, h⟩ := ih h
    refine ⟨before, bind_eq_ok.mpr ⟨joined, hjoined, bind_eq_ok.mpr ⟨rows, hrows, hbefore⟩⟩, ?_⟩
    rwa [List.append_assoc] at h

/-- **Each join of a level** has the plan of the sources before it as its main side, and the sides
of its condition as its keys. -/
theorem planSources?_join {q : Query} (h : q.planSources? = .ok p)
    (hj : q.joins = earlier ++ j :: later) :
    let known := q.source.label :: earlier.map (·.source.label)
    ∃ c main joined, JoinCondition.orient j.left j.right known j.source.label = .ok c ∧
      (Plan.join j.kind c.main c.joined main joined).Within p ∧
      (∀ r, main.Makes r → r.value.Covers known) ∧
      ∀ r, joined.Makes r → r.value.Covers [j.source.label] := by
  intro known
  obtain ⟨first, hfirst, h⟩ := bind_eq_ok.mp h
  rw [hj] at h
  obtain ⟨main, hmain, h⟩ := ofJoins?_append h
  obtain ⟨kind, source, left, right⟩ := j
  obtain ⟨joined, hjoined, h⟩ := bind_eq_ok.mp h
  obtain ⟨rows, hrows, h⟩ := bind_eq_ok.mp h
  obtain ⟨c, hc, -, rfl⟩ := join?_condition hrows
  refine ⟨c, main, joined, hc, (ofJoins?_within h).1, fun r hr => ?_, fun r hr => ?_⟩
  · exact (makes_has hmain (fun r => ofSource?_makes hfirst) hr).covers
  · exact (ofSource?_makes hjoined hr).covers

end Plan

namespace JoinCondition

/-! ## What the keys read -/

/-- The keys of a join name sources of their own side alone, and find on a joined row what they find
on its two sides. -/
structure ReadsSides (c : JoinCondition) (known : List String) (label : String)
    (main joined : Plan) : Prop where
  main_names : ∀ a, c.main.Names a → a ∈ known ∧ a ≠ label
  joined_names : ∀ a, c.joined.Names a → a = label
  eval_main : ∀ x y, main.Makes x → joined.Makes y →
    c.main.eval (Row.merge (some x) (some y)).value = c.main.eval x.value
  eval_joined : ∀ x y, main.Makes x → joined.Makes y →
    c.joined.eval (Row.merge (some x) (some y)).value = c.joined.eval y.value

/-- **The keys of a suitable condition read their own sides**, as long as sources have names. -/
theorem Suits.readsSides {c : JoinCondition} {known : List String} {label : String}
    {main joined : Plan} (h : c.Suits known label) (hnew : label ∉ known) (hempty : "" ∉ known)
    (hmain : ∀ r, main.Makes r → r.value.Covers known)
    (hjoined : ∀ r, joined.Makes r → r.value.Covers [label]) :
    c.ReadsSides known label main joined := by
  obtain ⟨a, ha, hne, honly⟩ := h.main
  have hnames : ∀ b, c.main.Names b → b ∈ known ∧ b ≠ label := fun b hb => by
    obtain rfl := (honly b).mp hb
    exact ⟨ha, hne⟩
  have hside : ∀ b, c.joined.Names b → b = label := fun b => (h.joined b).mp
  -- On a joined row, the fields of the main side are those that the joined side does not have.
  have hleft : ∀ x y, main.Makes x → joined.Makes y → ∀ b, b ≠ label →
      (Row.merge (some x) (some y)).value.field? b = x.value.field? b := fun x y hx hy b hb => by
    refine (Value.field?_merge (hmain x hx) (hjoined y hy) b).trans ?_
    rw [(hjoined y hy).field?_eq_none (List.mem_singleton.not.mpr hb), Option.none_or]
  have hright : ∀ x y, main.Makes x → joined.Makes y → ∀ b, b ∉ known →
      (Row.merge (some x) (some y)).value.field? b = y.value.field? b := fun x y hx hy b hb => by
    refine (Value.field?_merge (hmain x hx) (hjoined y hy) b).trans ?_
    rw [(hmain x hx).field?_eq_none hb, Option.or_none]
  refine ⟨hnames, hside, fun x y hx hy => ?_, fun x y hx hy => ?_⟩
  · exact Expr.eval_congr_of_names (fun b hb => hleft x y hx hy b (hnames b hb).2)
      (hleft x y hx hy "" h.joined.ne_empty.symm)
  · exact Expr.eval_congr_of_names (fun b hb => hright x y hx hy b (hside b hb ▸ hnew))
      (hright x y hx hy "" hempty)

/-- **A condition is taken if and only if it suits the join**: if one of its sides names exactly one
source, one that is there and not the joined one, and the other side exactly the joined source. It
comes out with the first of these as its main side, in whichever order it was written. One that is
refused lacks a source on some side, or has one source on both, a left side that is not there, or a
right side that is not joined. So in the plan of every level of a query the main key of each join
names sources before the join alone, and reads of a joined row what it reads of the main side. -/
theorem orient_iff_suits (left right : Expr) (available : List String) (label : String) :
    ((∃ c, orient left right available label = .ok c) ↔
        Suits ⟨left, right⟩ available label ∨ Suits ⟨right, left⟩ available label) ∧
      (∀ c, orient left right available label = .ok c →
        c.Suits available label ∧ (c = ⟨left, right⟩ ∨ c = ⟨right, left⟩)) ∧
      (∀ c, orient left right available label = .ok c ↔ orient right left available label = .ok c) ∧
      (∀ e, orient left right available label = .error e →
        Unsuited left right available label e) ∧
      ∀ (q l : Query) (p : Plan) (earlier : List (Join Source)) (j : Join Source)
        (later : List (Join Source)),
        Plan.ofQuery? q = .ok p → q.HasLevel l → l.joins = earlier ++ j :: later →
        let known := l.source.label :: earlier.map (·.source.label)
        ∃ c main joined, orient j.left j.right known j.source.label = .ok c ∧
          (Plan.join j.kind c.main c.joined main joined).Within p ∧
          c.ReadsSides known j.source.label main joined := by
  refine ⟨⟨?_, ?_⟩, fun c => orient_eq_ok.mp, fun c => orient_swap, fun e => unsuited_of_orient, ?_⟩
  · rintro ⟨c, hc⟩
    obtain ⟨hsuits, rfl | rfl⟩ := orient_eq_ok.mp hc
    · exact Or.inl hsuits
    · exact Or.inr hsuits
  · rintro (hsuits | hsuits)
    · exact ⟨_, orient_eq_ok.mpr ⟨hsuits, Or.inl rfl⟩⟩
    · exact ⟨_, orient_eq_ok.mpr ⟨hsuits, Or.inr rfl⟩⟩
  · intro q l p earlier j later hp hlevel hjoins known
    obtain ⟨r, hr, hwithin⟩ := hlevel.within hp
    obtain ⟨⟨sources, hsources, hsub⟩, -⟩ := Plan.ofQuery?_within hr
    obtain ⟨c, main, joined, hc, hjoin, hmain, hjoined⟩ := Plan.planSources?_join hsources hjoins
    obtain ⟨hnodup, hnamed⟩ := Plan.ofQuery?_labels hr
    have hlabels : l.sources.map (·.label) =
        known ++ j.source.label :: later.map (·.source.label) := by
      rw [Level.labels_eq, hjoins, List.map_append, List.map_cons]
      rfl
    rw [hlabels] at hnodup hnamed
    refine ⟨c, main, joined, hc, hjoin.trans (hsub.trans hwithin),
      (orient_eq_ok.mp hc).1.readsSides ?_ ?_ hmain hjoined⟩
    · exact fun hmem => List.disjoint_of_nodup_append hnodup hmem List.mem_cons_self
    · exact fun hmem => hnamed (by rw [hjoins]; simp) (List.mem_append_left _ hmem)

/-- A condition that was written the other way round, in a query of users and posts. -/
theorem orient_iff_suits_of_swapped_condition :
    let post : Expr := .call "coalesce" [.ref ["p", "author"], .ref ["p", "owner"]]
    let q : Query :=
      { source := .collection "users" "u"
        joins := [⟨.left, .collection "posts" "p", post, .ref ["u", "id"]⟩] }
    (∃ p, Plan.ofQuery? q = .ok p) ∧
      Suits ⟨.ref ["u", "id"], post⟩ ["u"] "p" ∧
      ∃ main joined, ReadsSides ⟨.ref ["u", "id"], post⟩ ["u"] "p" main joined := by
  intro post q
  have hc : orient post (.ref ["u", "id"]) ["u"] "p" = .ok ⟨.ref ["u", "id"], post⟩ := by decide
  obtain ⟨p, hp⟩ : ∃ p, Plan.ofQuery? q = .ok p := ⟨_, rfl⟩
  obtain ⟨-, htaken, -, -, hplan⟩ := orient_iff_suits post (.ref ["u", "id"]) ["u"] "p"
  obtain ⟨c, main, joined, hc', -, hreads⟩ :=
    hplan q q p [] ⟨.left, .collection "posts" "p", post, .ref ["u", "id"]⟩ [] hp (.self q) rfl
  obtain rfl := Except.ok.inj (hc.symm.trans hc')
  exact ⟨⟨p, hp⟩, (htaken _ hc).1, main, joined, hreads⟩

end JoinCondition

end DeltaView
