import DeltaView.Proofs.Join.Table

/-!
# Incremental joins are exact

A join turns each batch into the change of the joined table. Its indexes hold the rows of all
batches so far (`Holds`), and then every part of its output is a difference of two tables:

* `weigh_matchedDelta`: the three products are the change of the matched pairs.
* `weigh_paddedDelta`: the new rows and the flips of old ones are the change of the padded rows of
  one side. Under a key without changed partners nothing flips; under the others a flip depends on
  the masses before and after the batch alone, so it does not matter which rows make them up.
* **`process_exact`**: a batch puts out, consolidated, the joined table after it without the one
  before it.
* **`run_same`**: so the outputs of a run add up to the joined table.
-/

namespace DeltaView

namespace JoinState

variable {M : Type} [CommRing M] [DecidableEq M] {rule : JoinRule} {s : JoinState M}
  {L R l r : Delta Row M}

/-- The indexes hold the rows of two tables. -/
structure Holds (rule : JoinRule) (s : JoinState M) (L R : Delta Row M) : Prop where
  left : s.left.Holds (keyedRows rule.leftKey L)
  right : s.right.Holds (keyedRows rule.rightKey R)

omit [DecidableEq M] in
theorem Holds.empty (rule : JoinRule) : Holds (M := M) rule .empty [] [] := ⟨.empty, .empty⟩

/-! ## Matched pairs -/

omit [DecidableEq M] in
theorem weigh_pairs {i j : JoinIndex M} (hi : i.Holds (keyedRows rule.leftKey l))
    (hj : j.Holds (keyedRows rule.rightKey r)) (f : Row → M) :
    Delta.weigh f (joined (i.pairs j)) = Delta.weigh f (rule.matched l r) := by
  rw [JoinIndex.weigh_joined_pairs hi hj, JoinRule.weigh_matched, weigh_keyedRows]
  refine Delta.weigh_congr fun p _ => ?_
  rw [weigh_keyedRows]
  refine Delta.weigh_congr fun q _ => ?_
  simp only [JoinRule.relates, Bool.and_eq_true, beq_iff_eq]

/-- The three products are the change of the matched pairs. -/
theorem weigh_matchedDelta (h : Holds rule s L R) (f : Row → M) :
    Delta.weigh f (s.matchedDelta (.ofDelta rule.leftKey l) (.ofDelta rule.rightKey r)) =
      Delta.weigh f (rule.matched (L ++ l) (R ++ r)) - Delta.weigh f (rule.matched L R) := by
  have hl := JoinIndex.Holds.ofDelta rule.leftKey l
  have hr := JoinIndex.Holds.ofDelta rule.rightKey r
  unfold matchedDelta
  rw [JoinIndex.joined_append, JoinIndex.joined_append, Delta.weigh_append, Delta.weigh_append,
    weigh_pairs hl h.right, weigh_pairs h.left hr, weigh_pairs hl hr,
    JoinRule.weigh_matched_append_left, JoinRule.weigh_matched_append_right,
    JoinRule.weigh_matched_append_right]
  ring

/-! ## Padded rows -/

/-- A key is alone if it is absent or has no mass in the index of the other side. -/
theorem isAlone_eq {key : Row → JoinKey} {partners : Delta Row M} {i : JoinIndex M}
    (h : i.Holds (keyedRows key partners)) (k : JoinKey) :
    JoinRule.isAlone key partners k = (!k.isSome || i.mass k == 0) := by
  rw [JoinRule.isAlone, h.mass, weigh_keyedRows, Delta.mass_eq_weigh,
    Delta.weigh_filterItems, Option.not_isSome]
  simp only [beq_iff_eq]

/-- The new rows of one side that are alone after the batch. -/
theorem weigh_paddedNew {key : Row → JoinKey} {rows : Delta Row M} {delta : JoinIndex M}
    (h : delta.Holds (keyedRows key rows)) (f : Row → M) (pad : Row → Row)
    (partner partnerDelta : JoinIndex M) :
    Delta.weigh f (paddedNew pad delta partner partnerDelta) =
      Delta.weigh (fun r => if !(key r).isSome || partner.mass (key r) + partnerDelta.mass (key r) == 0
        then f (pad r) else 0) rows := by
  have hsplit : ∀ entries : List (JoinKey × Row × M),
      Delta.weigh f ((entries.filter fun e =>
          !e.1.isSome || partner.mass e.1 + partnerDelta.mass e.1 == 0).map
            fun e => (pad e.2.1, e.2.2)) =
        Delta.weigh (fun p : JoinKey × Row =>
          if !p.1.isSome || partner.mass p.1 + partnerDelta.mass p.1 == 0 then f (pad p.2) else 0)
          (entries.map fun e => ((e.1, e.2.1), e.2.2)) := by
    intro entries
    induction entries with
    | nil => rfl
    | cons e entries ih =>
      obtain ⟨k, r, m⟩ := e
      rw [List.map_cons, Delta.weigh_cons, ← ih, List.filter_cons]
      dsimp only
      split
      · rfl
      · rw [mul_zero, zero_add]
  rw [paddedNew, hsplit, h.weigh_entries, weigh_keyedRows]

/-- What the old rows under one key change by: each that is no longer alone leaves, and each that
is alone from now on comes. -/
theorem weigh_paddedFlip (f : Row → M) (pad : Row → Row) (state partner partnerDelta : JoinIndex M)
    (k : JoinKey) :
    Delta.weigh f (paddedFlip pad state partner partnerDelta k) =
      Delta.weigh (fun r =>
        (if !k.isSome || partner.mass k + partnerDelta.mass k == 0 then f (pad r) else 0) -
          (if !k.isSome || partner.mass k == 0 then f (pad r) else 0)) (state.rows k) := by
  have hleave : Delta.weigh f ((state.rows k).map fun p => (pad p.1, -p.2)) =
      -Delta.weigh (fun r => f (pad r)) (state.rows k) := by
    have := Delta.weigh_scaled f pad (-1) (state.rows k)
    simpa only [neg_mul, one_mul] using this
  have hcome : Delta.weigh f ((state.rows k).map fun p => (pad p.1, p.2)) =
      Delta.weigh (fun r => f (pad r)) (state.rows k) := Delta.weigh_mapItems f pad (state.rows k)
  unfold paddedFlip
  dsimp only
  -- Only whether there is mass before and after the batch matters.
  generalize (partner.mass k + partnerDelta.mass k == 0) = after
  generalize (partner.mass k == 0) = before
  cases k.isSome with
  | false => simp
  | true =>
    cases before <;> cases after
    · simp
    · simpa using hcome
    · simp only [Bool.not_true, Bool.false_or, Bool.false_eq_true, if_false, if_true, zero_sub]
      rw [if_neg (by decide), hleave, ← neg_one_mul, ← Delta.weigh_mul]
      simp only [neg_one_mul]
    · simp

omit [DecidableEq M] in
/-- A sum over the rows under several keys. -/
theorem weigh_rows_of_keys {key : Row → JoinKey} {rows : Delta Row M} {state : JoinIndex M}
    (h : state.Holds (keyedRows key rows)) (f : Row → M) (part : JoinKey → Delta Row M)
    (g : JoinKey → Row → M)
    (hg : ∀ k, Delta.weigh f (part k) = Delta.weigh (g k) (state.rows k)) :
    ∀ {ks : List JoinKey}, ks.Nodup →
      Delta.weigh f (ks.flatMap part) =
        Delta.weigh (fun r => if key r ∈ ks then g (key r) r else 0) rows
  | [], _ => by simp
  | k :: ks, hn => by
    obtain ⟨hk, hn⟩ := List.nodup_cons.mp hn
    rw [List.flatMap_cons, Delta.weigh_append, hg, weigh_rows_of_keys h f part g hg hn,
      h.weigh_rows, weigh_keyedRows, ← Delta.weigh_add]
    refine Delta.weigh_congr fun p _ => ?_
    by_cases hp : key p.1 = k
    · simp [hp, hk]
    · simp [hp]

/-- **New rows and flips are the change of the padded rows** of one side. -/
theorem weigh_paddedDelta {key partnerKey : Row → JoinKey} {rows rows' partners partners' : Delta Row M}
    {state delta partner partnerDelta : JoinIndex M} (hs : state.Holds (keyedRows key rows))
    (hd : delta.Holds (keyedRows key rows')) (hp : partner.Holds (keyedRows partnerKey partners))
    (hq : partnerDelta.Holds (keyedRows partnerKey partners')) (f : Row → M) (pad : Row → Row) :
    Delta.weigh f (paddedDelta pad delta state partner partnerDelta) =
      Delta.weigh f (JoinRule.padded pad key partnerKey (rows ++ rows') (partners ++ partners')) -
        Delta.weigh f (JoinRule.padded pad key partnerKey rows partners) := by
  have hafter : ∀ k, JoinRule.isAlone partnerKey (partners ++ partners') k =
      (!k.isSome || partner.mass k + partnerDelta.mass k == 0) := fun k => by
    have hboth := hp.append hq
    rw [← keyedRows_append] at hboth
    rw [isAlone_eq hboth, hboth.mass, keyedRows_append, Delta.weigh_append, ← hp.mass, ← hq.mass]
  rw [JoinRule.weigh_padded, JoinRule.weigh_padded, Delta.weigh_append, paddedDelta,
    Delta.weigh_append, weigh_paddedNew hd,
    weigh_rows_of_keys hs f _ _ (weigh_paddedFlip f pad state partner partnerDelta) hq.keys_nodup]
  have hold : Delta.weigh (fun r => if key r ∈ partnerDelta.keys then
        (if !(key r).isSome || partner.mass (key r) + partnerDelta.mass (key r) == 0
          then f (pad r) else 0) -
          (if !(key r).isSome || partner.mass (key r) == 0 then f (pad r) else 0) else 0) rows =
      Delta.weigh (fun r =>
        if JoinRule.isAlone partnerKey (partners ++ partners') (key r) then f (pad r) else 0) rows -
      Delta.weigh (fun r =>
        if JoinRule.isAlone partnerKey partners (key r) then f (pad r) else 0) rows := by
    rw [← Delta.weigh_sub]
    refine Delta.weigh_congr fun p _ => ?_
    simp only [hafter, isAlone_eq hp]
    -- Where no partner changes, the mass and with it the row stays as it was.
    by_cases hk : key p.1 ∈ partnerDelta.keys
    · rw [if_pos hk]
    · rw [if_neg hk, hq.mass_eq_zero hk, add_zero, sub_self]
  rw [hold]
  simp only [hafter]
  ring

/-! ## A batch -/

theorem process_state (h : Holds rule s L R) (l r : Delta Row M) :
    Holds rule (process rule s l r).1 (L ++ l) (R ++ r) := by
  refine ⟨?_, ?_⟩
  · rw [keyedRows_append]
    exact h.left.append (.ofDelta rule.leftKey l)
  · rw [keyedRows_append]
    exact h.right.append (.ofDelta rule.rightKey r)

omit [DecidableEq M] in
theorem weigh_ite (c : Bool) (f : Row → M) (d : Delta Row M) :
    Delta.weigh f (if c then d else []) = if c then Delta.weigh f d else 0 := by
  cases c <;> rfl

/-- **A batch puts out the change of the joined table**, consolidated. -/
theorem process_exact (h : Holds rule s L R) (l r : Delta Row M) :
    (process rule s l r).2.Consolidated ∧
      ∀ a, Delta.total a (process rule s l r).2 =
        Delta.total a (rule.table (L ++ l) (R ++ r)) - Delta.total a (rule.table L R) := by
  refine ⟨Delta.consolidated_consolidate _, fun a => ?_⟩
  have hl := JoinIndex.Holds.ofDelta rule.leftKey l
  have hr := JoinIndex.Holds.ofDelta rule.rightKey r
  unfold process JoinRule.table
  dsimp only
  rw [Delta.total_consolidate]
  simp only [Delta.total_eq_weigh, Delta.weigh_append, weigh_ite]
  rw [weigh_matchedDelta h, weigh_paddedDelta h.left hl h.right hr,
    weigh_paddedDelta h.right hr h.left hl]
  cases rule.kind.keepsLeft <;> cases rule.kind.keepsRight <;> simp <;> ring

/-- A step that gets no input has no change to put out. -/
theorem step_exact (h : Holds rule s L R) (l r : Delta Row M) :
    Holds rule (s.step rule l r).1 (L ++ l) (R ++ r) ∧ (s.step rule l r).2.Consolidated ∧
      ∀ a, Delta.total a (s.step rule l r).2 =
        Delta.total a (rule.table (L ++ l) (R ++ r)) - Delta.total a (rule.table L R) := by
  unfold step
  split
  · rename_i hempty
    obtain ⟨rfl, rfl⟩ : l = [] ∧ r = [] := by simpa using hempty
    simp only [List.append_nil]
    exact ⟨h, .nil, fun a => (sub_self _).symm⟩
  · exact ⟨process_state h l r, process_exact h l r⟩

/-! ## A run -/

/-- The state after several batches, and what was put out for each. -/
def run {M : Type} [Add M] [Neg M] [Mul M] [OfNat M 0] [DecidableEq M] (rule : JoinRule) :
    JoinState M → List (Delta Row M × Delta Row M) → JoinState M × List (Delta Row M)
  | s, [] => (s, [])
  | s, (l, r) :: batches =>
    let (s, out) := process rule s l r
    let (s, outs) := run rule s batches
    (s, out :: outs)

theorem run_spec (h : Holds rule s L R) (batches : List (Delta Row M × Delta Row M)) :
    Holds rule (run rule s batches).1 (L ++ (batches.map (·.1)).flatten)
        (R ++ (batches.map (·.2)).flatten) ∧
      ∀ a, Delta.total a (run rule s batches).2.flatten =
        Delta.total a (rule.table (L ++ (batches.map (·.1)).flatten)
          (R ++ (batches.map (·.2)).flatten)) - Delta.total a (rule.table L R) := by
  induction batches generalizing s L R with
  | nil =>
    rw [List.map_nil, List.map_nil, List.flatten_nil, List.append_nil, List.append_nil]
    exact ⟨h, fun a => (sub_self _).symm⟩
  | cons batch batches ih =>
    obtain ⟨l, r⟩ := batch
    obtain ⟨hs, ht⟩ := ih (process_state h l r)
    simp only [List.map_cons, List.flatten_cons, ← List.append_assoc]
    refine ⟨hs, fun a => ?_⟩
    show Delta.total a ((process rule s l r).2 ++ (run rule (process rule s l r).1 batches).2.flatten)
      = _
    rw [Delta.total_append, ht, (process_exact h l r).2]
    ring

theorem table_nil (rule : JoinRule) : rule.table (M := M) [] [] = [] := by
  unfold JoinRule.table
  cases rule.kind.keepsLeft <;> cases rule.kind.keepsRight <;> rfl

/-- **The outputs of a run add up to the joined table** of what was read. -/
theorem run_same (rule : JoinRule) (batches : List (Delta Row M × Delta Row M)) :
    Delta.Same (run rule .empty batches).2.flatten
      (rule.table (batches.map (·.1)).flatten (batches.map (·.2)).flatten) := fun a => by
  rw [(run_spec (Holds.empty rule) batches).2 a, table_nil]
  exact sub_zero _

end JoinState

end DeltaView
