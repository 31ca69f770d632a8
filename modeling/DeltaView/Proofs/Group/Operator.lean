import DeltaView.Group.Operator
import DeltaView.Proofs.Delta.Canonical
import DeltaView.Proofs.Grouping
import DeltaView.Proofs.Table
import DeltaView.Proofs.Value.TotalOrder

/-!
# Incremental grouping is exact

* `GroupRule.table`: the row of every group whose members' multiplicities add up to more than zero,
  computed from the members in their canonical order.
* `Holds rule s d`: the groups hold the rows of `d`, and the row that was last emitted for a key is
  the one that its members make now.
* **`step_exact`**: a step keeps this, and puts out the change of the emitted rows.
* **`emitted_same_table`**: the emitted rows are the table, if no row depends on the order in which
  a group lists its members (`Steady`).
-/

namespace DeltaView

namespace GroupRule

variable {M : Type} [CommRing M] [DecidableEq M] (rule : GroupRule)

/-- The members of a group, in canonical order. -/
def members (d : Delta Row M) (key : Value) : Delta Row M :=
  Delta.canonical Row.cmp (Delta.filterItems (fun r => rule.key r == key) d)

variable {rule}

theorem members_congr {d e : Delta Row M} (h : Delta.Same d e) (key : Value) :
    rule.members d key = rule.members e key := Delta.canonical_eq (h.filterItems _)

/-- The mass of a group is the total of its key. -/
theorem mass_members (d : Delta Row M) (key : Value) :
    Delta.mass (rule.members d key) = Delta.total key (Delta.mapItems rule.key d) := by
  rw [members, (Delta.same_canonical _ _).mass, Delta.mass_eq_weigh, Delta.weigh_filterItems,
    Delta.total_mapItems]
  simp only [beq_iff_eq]

/-- All members of a group have its key. -/
theorem key_of_mem {d : Delta Row M} {key : Value} {x : Row × M} (h : x ∈ rule.members d key) :
    rule.key x.1 = key := by
  obtain ⟨hne, htotal⟩ := (Delta.consolidated_canonical _ _).mem_iff.mp h
  rw [← htotal, Delta.same_canonical] at hne
  obtain ⟨m, hm⟩ := Delta.exists_mem_of_total_ne_zero hne
  exact eq_of_beq (List.mem_filter.mp hm).2

variable [LinearOrder M] [ToInt M]

variable (rule) in
/-- The keys of the groups that have a row. -/
def keys (d : Delta Row M) : List Value := Delta.present Value.cmp (Delta.mapItems rule.key d)

variable (rule) in
/-- The row of every group. -/
def table (d : Delta Row M) : Delta Row M :=
  (rule.keys d).filterMap fun k => (GroupState.rowOf? rule k (rule.members d k)).map (·, 1)

variable (rule) in
/-- No group's row depends on the order in which its members are listed. -/
def Steady (d : Delta Row M) : Prop :=
  ∀ key (members : Delta Row M), members.Perm (rule.members d key) →
    GroupState.rowOf? rule key members = GroupState.rowOf? rule key (rule.members d key)

theorem table_congr {d e : Delta Row M} (h : Delta.Same d e) : rule.table d = rule.table e := by
  unfold table keys
  rw [Delta.present_eq (h.mapItems _)]
  simp only [members_congr h]

theorem Steady.congr {d e : Delta Row M} (h : rule.Steady d) (hs : Delta.Same d e) :
    rule.Steady e := fun key members hp => by
  rw [← members_congr hs] at hp ⊢
  exact h key members hp

omit [DecidableEq M] in
theorem rowOf?_key {key : Value} {members : Delta Row M} {r : Row}
    (h : GroupState.rowOf? rule key members = some r) : r.key = .plain key := by
  unfold GroupState.rowOf? at h
  split at h
  · rw [← Option.some.inj h]
  · exact absurd h (by simp)

end GroupRule

namespace GroupState

variable {M : Type} [CommRing M] {rule : GroupRule}

/-! ## Rows by key -/

/-- One if a look-up by the key of a row gives this row, and nothing otherwise. -/
def hit (lookup : Value → Option Row) (r : Row) : M :=
  match r.key with
  | .plain k => if lookup k = some r then 1 else 0
  | .joined _ _ => 0

/-- The rows that a look-up gives for some keys, as a multiset. -/
theorem total_filterMap {lookup : Value → Option Row}
    (hkey : ∀ k r, lookup k = some r → r.key = .plain k) {keys : List Value} (hn : keys.Nodup)
    (hall : ∀ k r, lookup k = some r → k ∈ keys) (r : Row) :
    Delta.total r (keys.filterMap fun k => (lookup k).map (·, (1 : M))) = hit lookup r := by
  have hsum : ∀ ks : List Value, ks.Nodup →
      Delta.total r (ks.filterMap fun k => (lookup k).map (·, (1 : M))) =
        if ∃ k ∈ ks, lookup k = some r then 1 else 0 := by
    intro ks
    induction ks with
    | nil => intro _; simp [Delta.total]
    | cons k ks ih =>
      intro hks
      obtain ⟨hk, hks⟩ := List.nodup_cons.mp hks
      cases hl : lookup k with
      | none =>
        rw [List.filterMap_cons_none (by rw [hl]; rfl), ih hks]
        simp [hl]
      | some x =>
        rw [List.filterMap_cons_some (by rw [hl]; rfl), Delta.total, ih hks]
        by_cases hx : x = r
        · subst hx
          have hno : ¬ ∃ l ∈ ks, lookup l = some x := by
            rintro ⟨l, hl', hlx⟩
            have := (hkey l x hlx).symm.trans (hkey k x hl)
            rw [RowKey.plain.inj this] at hl'
            exact hk hl'
          simp [hl, hno]
        · simp [hl, hx]
  rw [hsum keys hn, hit]
  cases hr : r.key with
  | plain k =>
    dsimp only
    by_cases hk : lookup k = some r
    · rw [if_pos hk, if_pos ⟨k, hall k r hk, hk⟩]
    · rw [if_neg hk, if_neg]
      rintro ⟨l, -, hl⟩
      have := (hkey l r hl).symm.trans hr
      rw [RowKey.plain.inj this] at hl
      exact hk hl
  | joined a b =>
    rw [if_neg]
    rintro ⟨l, -, hl⟩
    have := (hkey l r hl).symm.trans hr
    exact absurd this (by simp)

section Table

variable [DecidableEq M] [LinearOrder M] [ToInt M]

/-- The table's rows, by key. -/
theorem total_groupTable (d : Delta Row M) (r : Row) :
    Delta.total r (rule.table d) = hit (fun k => rowOf? rule k (rule.members d k)) r := by
  refine total_filterMap (fun k r h => GroupRule.rowOf?_key h) (Delta.nodup_present _ _)
    (fun k r h => ?_) r
  refine Delta.mem_present.mpr ?_
  rw [← GroupRule.mass_members]
  unfold rowOf? at h
  by_contra hn
  rw [if_neg hn] at h
  exact absurd h (by simp)

end Table

/-! ## The state -/

/-- The rows that were emitted and not taken back. -/
def emittedRows (s : GroupState M) : Delta Row M := s.emitted.map fun p => (p.2, 1)

/-- The groups hold the rows of a change, and emitted rows stand under their keys. -/
structure Groups (rule : GroupRule) (s : GroupState M) (d : Delta Row M) : Prop where
  groups : s.groups.Represents (Delta.mapItems (fun r => (rule.key r, r)) d)
  keys : s.emitted.KeysNodup
  emitted_key : ∀ k r, s.emitted.get? k = some r → r.key = .plain k

section Settled

variable [LinearOrder M] [ToInt M]

/-- Besides, the row emitted for every key is the one that its members make. -/
structure Holds (rule : GroupRule) (s : GroupState M) (d : Delta Row M) : Prop
    extends Groups rule s d where
  settled : ∀ k, s.emitted.get? k = groupRow? rule s k

theorem Holds.empty (rule : GroupRule) : Holds (M := M) rule .empty [] where
  groups := .empty
  keys := List.nodup_nil
  emitted_key _ _ h := absurd h (by simp [GroupState.empty, Table.get?])
  settled _ := (if_neg (lt_irrefl (0 : M))).symm

end Settled

theorem total_emittedRows {s : GroupState M} {d : Delta Row M} (h : Groups rule s d) (r : Row) :
    Delta.total r (emittedRows s) = hit s.emitted.get? r := by
  rw [← total_filterMap h.emitted_key h.keys (fun k r hk =>
    List.mem_map.mpr ⟨(k, r), Table.mem_of_get? hk, rfl⟩) r]
  have hmap : ∀ t : Table Value Row, t.KeysNodup →
      t.map (fun p => (p.2, (1 : M))) =
        (t.map (·.1)).filterMap fun k => (t.get? k).map (·, 1) := by
    intro t ht
    rw [List.filterMap_map, ← List.filterMap_eq_map]
    refine List.filterMap_congr fun p hp => ?_
    obtain ⟨k, x⟩ := p
    simp [Table.get?_of_mem ht hp]
  rw [emittedRows, hmap _ h.keys]

/-! ## A step -/

omit [CommRing M] in
theorem mem_touched {d : Delta Row M} {k : Value} :
    k ∈ touched rule d ↔ k ∈ d.map fun p => rule.key p.1 := by
  have hfold : ∀ acc : List Value,
      k ∈ d.foldl (fun acc p => if acc.contains (rule.key p.1) then acc else rule.key p.1 :: acc)
        acc ↔ k ∈ acc ∨ k ∈ d.map fun p => rule.key p.1 := by
    induction d with
    | nil => simp
    | cons p d ih =>
      intro acc
      rw [List.foldl_cons, ih, List.map_cons, List.mem_cons]
      by_cases hc : acc.contains (rule.key p.1)
      · rw [if_pos hc]
        have hmem := List.contains_iff_mem.mp hc
        constructor
        · tauto
        · rintro (h | rfl | h)
          · exact Or.inl h
          · exact Or.inl hmem
          · exact Or.inr h
      · rw [if_neg hc, List.mem_cons]
        tauto
  rw [touched, List.mem_reverse]
  simpa using hfold []

theorem total_toList (o : Option Row) (m : M) (r : Row) :
    Delta.total r (o.toList.map fun r => (r, m)) = if o = some r then m else 0 := by
  cases o with
  | none => rfl
  | some x => simp [Delta.total]

section Taking

variable [DecidableEq M]

/-- The state with all rows of a batch taken in, before any emitted row is replaced. -/
def takeAll (rule : GroupRule) (s : GroupState M) (e : Delta Row M) : GroupState M :=
  e.foldl (fun s (r, m) => take rule s r m) s

theorem takeAll_spec {s : GroupState M} {d : Delta Row M} (h : Groups rule s d) (e : Delta Row M) :
    Groups rule (takeAll rule s e) (d ++ e) ∧ (takeAll rule s e).emitted = s.emitted ∧
      ∀ k, k ∉ e.map (fun p => rule.key p.1) →
        (takeAll rule s e).groups.members k = s.groups.members k := by
  induction e generalizing s d with
  | nil =>
    rw [List.append_nil]
    exact ⟨h, rfl, fun _ _ => rfl⟩
  | cons p e ih =>
    obtain ⟨x, m⟩ := p
    have h1 : Groups rule (take rule s x m) (d ++ [(x, m)]) := by
      refine ⟨?_, h.keys, h.emitted_key⟩
      rw [Delta.mapItems_append]
      exact h.groups.adjust (rule.key x) x m
    obtain ⟨h2, he, hm⟩ := ih h1
    rw [List.append_assoc, List.singleton_append] at h2
    refine ⟨h2, he, fun k hk => ?_⟩
    rw [List.map_cons, List.mem_cons, not_or] at hk
    refine (hm k hk.2).trans ?_
    show Grouping.members k (s.groups.adjust (rule.key x) x m) = _
    rw [Grouping.members_adjust h.groups.nodup, if_neg fun e => hk.1 e.symm]

/-- The members that a state lists for a key are those of the change, in some order. -/
theorem Groups.members_perm {s : GroupState M} {d : Delta Row M} (h : Groups rule s d) (key : Value) :
    (s.groups.members key).Perm (rule.members d key) := by
  refine (h.groups.consolidated key).perm (Delta.consolidated_canonical _ _) fun r => ?_
  rw [GroupRule.members, Delta.same_canonical, h.groups.total, Delta.total_filterItems,
    Delta.total_mapItems]
  by_cases hr : rule.key r = key
  · rw [if_pos (by simpa using hr), Delta.total_eq_weigh]
    refine Delta.weigh_congr fun p _ => ?_
    by_cases hp : p.1 = r
    · rw [if_pos hp, if_pos (by rw [hp, hr])]
    · rw [if_neg hp, if_neg fun e => hp (Prod.mk.inj e).2]
  · rw [if_neg (by simpa using hr)]
    refine (Delta.weigh_congr fun p _ => if_neg fun e => hr ?_).trans (Delta.weigh_zero _)
    obtain ⟨e1, e2⟩ := Prod.mk.inj e
    rw [← e2]
    exact e1

end Taking

variable [LinearOrder M] [ToInt M]

/-- Refreshing a key puts out the change of its row. -/
theorem refresh_spec {s : GroupState M} {d : Delta Row M} (h : Groups rule s d) (key : Value) :
    Groups rule (refresh rule s key).1 d ∧ (refresh rule s key).1.groups = s.groups ∧
      (∀ k, (refresh rule s key).1.emitted.get? k =
        if key = k then groupRow? rule s key else s.emitted.get? k) ∧
      ∀ r, Delta.total r (refresh rule s key).2 =
        hit (refresh rule s key).1.emitted.get? r - hit s.emitted.get? r := by
  have hnew : ∀ r, groupRow? rule s key = some r → r.key = .plain key := fun r =>
    GroupRule.rowOf?_key
  unfold refresh
  dsimp only
  split
  · rename_i heq
    refine ⟨h, rfl, fun k => ?_, fun r => (sub_self _).symm⟩
    by_cases hk : key = k
    · rw [if_pos hk, ← heq, hk]
    · rw [if_neg hk]
  · have hget := Table.get?_set (a := groupRow? rule s key) (k := key) h.keys
    refine ⟨⟨h.groups, Table.keysNodup_set h.keys, fun k r hr => ?_⟩, rfl, hget, fun r => ?_⟩
    · rw [hget] at hr
      split at hr
      · rename_i hk
        rw [← hk]
        exact hnew r hr
      · exact h.emitted_key k r hr
    · have hold := fun x => h.emitted_key key x
      dsimp only
      -- Only rows under the key itself come and go.
      have htotal : Delta.total r (((s.emitted.get? key).toList.map fun r => (r, (-1 : M))) ++
            ((groupRow? rule s key).toList.map fun r => (r, (1 : M)))) =
          (if groupRow? rule s key = some r then 1 else 0) -
            (if s.emitted.get? key = some r then 1 else 0) := by
        rw [Delta.total_append, total_toList, total_toList]
        split <;> split <;> ring
      rw [htotal, hit, hit]
      cases hr : r.key with
      | plain k =>
        dsimp only
        rw [hget]
        by_cases hk : key = k
        · subst hk
          rw [if_pos rfl]
        · rw [if_neg hk, if_neg fun e => hk (RowKey.plain.inj ((hnew r e).symm.trans hr)),
            if_neg fun e => hk (RowKey.plain.inj ((hold r e).symm.trans hr))]
          ring
      | joined a b =>
        rw [if_neg fun e => absurd ((hnew r e).symm.trans hr) (by simp),
          if_neg fun e => absurd ((hold r e).symm.trans hr) (by simp)]

theorem groupRow?_congr {s s' : GroupState M} (h : s.groups = s'.groups) (k : Value) :
    groupRow? rule s k = groupRow? rule s' k := by rw [groupRow?, groupRow?, h]

theorem refreshAll_spec {s : GroupState M} {d : Delta Row M} (h : Groups rule s d)
    (keys : List Value) :
    Groups rule (refreshAll rule s keys).1 d ∧ (refreshAll rule s keys).1.groups = s.groups ∧
      (∀ k, (refreshAll rule s keys).1.emitted.get? k =
        if k ∈ keys then groupRow? rule s k else s.emitted.get? k) ∧
      ∀ r, Delta.total r (refreshAll rule s keys).2 =
        hit (refreshAll rule s keys).1.emitted.get? r - hit s.emitted.get? r := by
  induction keys generalizing s with
  | nil => exact ⟨h, rfl, fun k => by simp [refreshAll], fun r => (sub_self _).symm⟩
  | cons key keys ih =>
    obtain ⟨h1, hg1, he1, ht1⟩ := refresh_spec h key
    obtain ⟨h2, hg2, he2, ht2⟩ := ih h1
    refine ⟨h2, hg2.trans hg1, fun k => (he2 k).trans ?_, fun r => ?_⟩
    · rw [groupRow?_congr hg1, he1]
      by_cases hk : k ∈ keys
      · rw [if_pos hk, if_pos (List.mem_cons_of_mem _ hk)]
      · rw [if_neg hk]
        by_cases hkey : key = k
        · rw [if_pos hkey, if_pos (by rw [hkey]; exact List.mem_cons_self), hkey]
        · rw [if_neg hkey, if_neg fun hm => ?_]
          rcases List.mem_cons.mp hm with e | hm
          · exact hkey e.symm
          · exact hk hm
    · show Delta.total r ((refresh rule s key).2 ++ (refreshAll rule (refresh rule s key).1 keys).2)
        = hit (refreshAll rule (refresh rule s key).1 keys).1.emitted.get? r - _
      rw [Delta.total_append, ht1, ht2]
      ring

variable [DecidableEq M]

theorem step_eq (s : GroupState M) (e : Delta Row M) :
    s.step rule e = refreshAll rule (takeAll rule s e) (touched rule e) := rfl

/-- **A step puts out the change of the emitted rows**, each of which is the one that the members
of its group make. -/
theorem step_exact {s : GroupState M} {d : Delta Row M} (h : Holds rule s d) (e : Delta Row M) :
    Holds rule (s.step rule e).1 (d ++ e) ∧
      ∀ r, Delta.total r (s.step rule e).2 =
        Delta.total r (emittedRows (s.step rule e).1) - Delta.total r (emittedRows s) := by
  obtain ⟨h1, he1, hm1⟩ := takeAll_spec h.toGroups e
  obtain ⟨h2, hg2, he2, ht2⟩ := refreshAll_spec h1 (touched rule e)
  rw [step_eq]
  refine ⟨⟨h2, fun k => (he2 k).trans ?_⟩, fun r => ?_⟩
  · rw [groupRow?_congr hg2]
    split
    · rfl
    · rename_i hk
      rw [mem_touched] at hk
      rw [he1, h.settled, groupRow?, groupRow?, hm1 k hk]
  · rw [total_emittedRows h2, total_emittedRows h.toGroups, ← he1]
    exact ht2 r

/-- **The emitted rows are the table** of the groups. -/
theorem emitted_same_table {s : GroupState M} {d : Delta Row M} (h : Holds rule s d)
    (hd : rule.Steady d) : Delta.Same (emittedRows s) (rule.table d) := fun r => by
  have hrow : ∀ k, s.emitted.get? k = rowOf? rule k (rule.members d k) := fun k => by
    rw [h.settled, groupRow?]
    exact hd k _ (h.members_perm k)
  rw [total_emittedRows h.toGroups, total_groupTable, hit, hit]
  simp only [hrow]

end GroupState

end DeltaView
