import DeltaView.Dataflow.Graph
import Mathlib.Algebra.BigOperators.Group.Finset.Basic
import Mathlib.Algebra.Order.BigOperators.Group.Finset

/-!
# The order of a graph

A graph is sorted by taking, again and again, a node whose producers have all been taken. The
invariant of the loop says what its counters count: the inlets of a node that are fed by nodes not
taken yet.

* `inDegrees_spec`, `release_spec`: the counters at the beginning, and after a node is taken.
* `Follows nodes done order`: along the list, every node comes after all its producers.
* **`topologicalOrder_follows`**: the order of a graph has every node at most once, and each after
  its producers. Where it has as many entries as there are nodes, it has all of them.
* **`topologicalOrder_complete`**: where nodes feed later nodes only, it has as many entries as there
  are nodes.
-/

namespace DeltaView

namespace Graph

variable {O E : Type}

/-! ## Counting inlets -/

/-- The inlets that a node feeds. -/
def consumersOf (nodes : List (Node O E)) (i : Nat) : List (Nat × Nat) :=
  (nodes[i]?).elim [] (·.consumers)

/-- How many inlets of one node another one feeds. -/
def feedCount (nodes : List (Node O E)) (p c : Nat) : Nat :=
  (consumersOf nodes p).countP fun e => decide (e.1 = c)

/-- How many inlets of a node are fed by nodes that are not taken yet. -/
def waiting (nodes : List (Node O E)) (done : List Nat) (c : Nat) : Nat :=
  ∑ p ∈ Finset.range nodes.length, if p ∈ done then 0 else feedCount nodes p c

theorem waiting_cons {nodes : List (Node O E)} {done : List Nat} {i : Nat} (hi : i < nodes.length)
    (hn : i ∉ done) (c : Nat) :
    waiting nodes done c = waiting nodes (i :: done) c + feedCount nodes i c := by
  unfold waiting
  rw [← Finset.add_sum_erase _ _ (Finset.mem_range.mpr hi),
    ← Finset.add_sum_erase (a := i) _ (fun p => if p ∈ i :: done then 0 else feedCount nodes p c)
      (Finset.mem_range.mpr hi), if_neg hn, if_pos List.mem_cons_self, zero_add, add_comm]
  congr 1
  refine Finset.sum_congr rfl fun p hp => ?_
  have hne := Finset.ne_of_mem_erase hp
  simp [hne]

theorem waiting_le {nodes : List (Node O E)} {done : List Nat} {i : Nat} (hi : i < nodes.length)
    (hn : i ∉ done) (c : Nat) : waiting nodes (i :: done) c ≤ waiting nodes done c := by
  rw [waiting_cons hi hn]
  omega

/-- Where nothing is waited for, all producers are taken. -/
theorem mem_done_of_waiting {nodes : List (Node O E)} {done : List Nat} {p c : Nat}
    (hp : p < nodes.length) (hf : 0 < feedCount nodes p c) (hw : waiting nodes done c = 0) :
    p ∈ done := by
  by_contra hn
  have h := (Finset.sum_eq_zero_iff.mp hw) p (Finset.mem_range.mpr hp)
  rw [if_neg hn] at h
  omega

/-! ## Counters -/

/-- Raising the counter of every consumer. -/
theorem foldl_modify_spec (consumers : List (Nat × Nat)) (ds : List Nat) (c : Nat) :
    (consumers.foldl (fun ds (c, _) => ds.modify c (· + 1)) ds)[c]? =
      (ds[c]?).map (· + consumers.countP fun e => decide (e.1 = c)) := by
  induction consumers generalizing ds with
  | nil => cases h : ds[c]? <;> simp [h]
  | cons e consumers ih =>
    obtain ⟨t, j⟩ := e
    rw [List.foldl_cons, ih, List.getElem?_modify, List.countP_cons]
    by_cases ht : t = c
    · cases h : ds[c]? <;> simp [ht]
      omega
    · cases h : ds[c]? <;> simp [ht]

/-- The counters at the beginning: all inlets that are fed. -/
theorem inDegrees_spec (g : Graph O E) {c : Nat} (hc : c < g.nodes.length) :
    g.inDegrees[c]? = some (waiting g.nodes [] c) := by
  have hfold : ∀ (nodes : List (Node O E)) (ds : List Nat),
      (nodes.foldl (fun ds n => n.consumers.foldl (fun ds (c, _) => ds.modify c (· + 1)) ds) ds)[c]?
        = (ds[c]?).map (· + waiting nodes [] c) := by
    intro nodes
    induction nodes using List.reverseRecOn with
    | nil => intro ds; cases h : ds[c]? <;> simp [waiting, h]
    | append_singleton nodes n ih =>
      intro ds
      rw [List.foldl_append, List.foldl_cons, List.foldl_nil, foldl_modify_spec, ih]
      have hlast : waiting (nodes ++ [n]) [] c =
          waiting nodes [] c + n.consumers.countP fun e => decide (e.1 = c) := by
        unfold waiting
        rw [List.length_append, List.length_singleton, Finset.sum_range_succ]
        congr 1
        · refine Finset.sum_congr rfl fun p hp => ?_
          rw [feedCount, feedCount, consumersOf, consumersOf,
            List.getElem?_append_left (Finset.mem_range.mp hp)]
        · simp [feedCount, consumersOf]
      rw [hlast]
      cases h : ds[c]? <;> simp
      omega
  rw [inDegrees, hfold, List.getElem?_replicate, if_pos hc]
  simp

/-- How many of some inlets belong to a node, one inlet more. -/
theorem countP_inlet_cons (t j c : Nat) (consumers : List (Nat × Nat)) :
    ((t, j) :: consumers).countP (fun e => decide (e.1 = c)) =
      consumers.countP (fun e => decide (e.1 = c)) + if t = c then 1 else 0 := by
  rw [List.countP_cons]
  simp only [decide_eq_true_eq]

/-- Taking one inlet away lowers the counter of its node. -/
theorem modify_counters {n t j : Nat} {base : Nat → Nat} {consumers : List (Nat × Nat)}
    {degrees : List Nat} (hd : ∀ c, c < n →
      degrees[c]? = some (base c + ((t, j) :: consumers).countP fun e => decide (e.1 = c))) :
    ∀ c, c < n → (degrees.modify t (· - 1))[c]? =
      some (base c + consumers.countP fun e => decide (e.1 = c)) := by
  intro c hc
  rw [List.getElem?_modify, hd c hc, countP_inlet_cons]
  by_cases htc : t = c
  · simp [htc]
  · simp [htc]

/-- Taking a node away from its consumers: its share leaves the counters, and those whose counter
comes to zero become ready. -/
theorem release_spec {n : Nat} (base : Nat → Nat) (consumers : List (Nat × Nat))
    (ready degrees : List Nat) (hlt : ∀ e ∈ consumers, e.1 < n)
    (hd : ∀ c, c < n →
      degrees[c]? = some (base c + consumers.countP fun e => decide (e.1 = c))) :
    (∀ c, c < n → (release consumers ready degrees).2[c]? = some (base c)) ∧
      ∃ news, (release consumers ready degrees).1 = ready ++ news ∧ news.Nodup ∧
        ∀ c, c ∈ news ↔ c < n ∧ base c = 0 ∧ 0 < consumers.countP fun e => decide (e.1 = c) := by
  induction consumers generalizing ready degrees with
  | nil => exact ⟨fun c hc => by simpa [release] using hd c hc, [], by simp [release]⟩
  | cons e consumers ih =>
    obtain ⟨t, j⟩ := e
    have ht : t < n := hlt _ List.mem_cons_self
    have hd' := modify_counters hd
    obtain ⟨h1, news, h2, h3, h4⟩ := ih
      (if (degrees.modify t (· - 1))[t]? = some 0 then ready ++ [t] else ready)
      (degrees.modify t (· - 1)) (fun e he => hlt e (List.mem_cons_of_mem _ he)) hd'
    refine ⟨h1, ?_⟩
    show ∃ news, (release consumers (if (degrees.modify t (· - 1))[t]? = some 0 then ready ++ [t]
      else ready) (degrees.modify t (· - 1))).1 = ready ++ news ∧ _
    by_cases hz : (degrees.modify t (· - 1))[t]? = some 0
    · rw [if_pos hz] at h2 ⊢
      rw [hd' t ht, Option.some.injEq, Nat.add_eq_zero_iff] at hz
      refine ⟨t :: news, by rw [h2, List.append_assoc]; rfl, ?_, fun c => ?_⟩
      · refine List.nodup_cons.mpr ⟨fun hmem => ?_, h3⟩
        have := ((h4 t).mp hmem).2.2
        omega
      · rw [List.mem_cons, h4, countP_inlet_cons]
        by_cases htc : t = c
        · subst htc
          exact ⟨fun _ => ⟨ht, hz.1, by rw [if_pos rfl]; omega⟩, fun _ => Or.inl rfl⟩
        · rw [if_neg htc, Nat.add_zero]
          exact or_iff_right (Ne.symm htc)
    · rw [if_neg hz] at h2 ⊢
      rw [hd' t ht, Option.some.injEq, Nat.add_eq_zero_iff] at hz
      refine ⟨news, h2, h3, fun c => ?_⟩
      rw [h4, countP_inlet_cons]
      by_cases htc : t = c
      · -- A node that is still fed by others becomes ready with the last of them.
        subst htc
        rw [if_pos rfl]
        refine and_congr_right fun _ => and_congr_right fun hb => ?_
        have : consumers.countP (fun e => decide (e.1 = t)) ≠ 0 := fun h => hz ⟨hb, h⟩
        omega
      · rw [if_neg htc, Nat.add_zero]

/-! ## Sorting -/

/-- Along the list, every node comes after all nodes that feed it. -/
def Follows (nodes : List (Node O E)) : List Nat → List Nat → Prop
  | _, [] => True
  | done, i :: rest =>
    (∀ p, p < nodes.length → 0 < feedCount nodes p i → p ∈ done) ∧ Follows nodes (i :: done) rest

/-- What holds while nodes are taken: the counters count what is waited for, and ready is what is
not taken and waits for nothing. -/
structure Sorting (nodes : List (Node O E)) (done ready degrees : List Nat) : Prop where
  counters : ∀ c, c < nodes.length → degrees[c]? = some (waiting nodes done c)
  ready_nodup : ready.Nodup
  mem_ready : ∀ c, c ∈ ready ↔ c < nodes.length ∧ c ∉ done ∧ waiting nodes done c = 0
  done_zero : ∀ c ∈ done, waiting nodes done c = 0

theorem Sorting.next {nodes : List (Node O E)} {done ready degrees : List Nat} {i : Nat}
    (hlt : ∀ i, ∀ e ∈ consumersOf nodes i, e.1 < nodes.length)
    (h : Sorting nodes done (i :: ready) degrees) :
    Sorting nodes (i :: done) (release (consumersOf nodes i) ready degrees).1
      (release (consumersOf nodes i) ready degrees).2 := by
  obtain ⟨hil, hid, hiw⟩ := (h.mem_ready i).mp List.mem_cons_self
  obtain ⟨hir, hnodup⟩ := List.nodup_cons.mp h.ready_nodup
  obtain ⟨h1, news, h2, h3, h4⟩ := release_spec (waiting nodes (i :: done)) (consumersOf nodes i)
    ready degrees (hlt i) fun c hc => by
      rw [h.counters c hc, waiting_cons hil hid]
      rfl
  have hfed : ∀ c ∈ news, waiting nodes done c ≠ 0 := fun c hc => by
    have := ((h4 c).mp hc).2.2
    rw [waiting_cons hil hid c, feedCount]
    omega
  have hle : ∀ c, waiting nodes done c = 0 → waiting nodes (i :: done) c = 0 := fun c hc => by
    have := waiting_le hil hid c
    omega
  rw [h2]
  refine ⟨h1, ?_, fun c => ?_, fun c hc => ?_⟩
  · refine List.nodup_append.mpr ⟨hnodup, h3, fun c hc d hd e => ?_⟩
    subst e
    exact hfed c hd ((h.mem_ready c).mp (List.mem_cons_of_mem _ hc)).2.2
  · rw [List.mem_append, List.mem_cons, not_or, h4]
    constructor
    · rintro (hc | ⟨hc, hw, hpos⟩)
      · obtain ⟨hc1, hc2, hc3⟩ := (h.mem_ready c).mp (List.mem_cons_of_mem _ hc)
        exact ⟨hc1, ⟨fun he => hir (he ▸ hc), hc2⟩, hle c hc3⟩
      · have hne := hfed c ((h4 c).mpr ⟨hc, hw, hpos⟩)
        exact ⟨hc, ⟨fun he => hne (he ▸ hiw), fun hd => hne (h.done_zero c hd)⟩, hw⟩
    · rintro ⟨hc, ⟨hne, hd⟩, hw⟩
      by_cases hpos : 0 < feedCount nodes i c
      · exact Or.inr ⟨hc, hw, hpos⟩
      · have hold : waiting nodes done c = 0 := by
          rw [waiting_cons hil hid c]
          omega
        exact Or.inl ((List.mem_cons.mp ((h.mem_ready c).mpr ⟨hc, hd, hold⟩)).resolve_left hne)
  · rcases List.mem_cons.mp hc with rfl | hc
    · exact hle c hiw
    · exact hle c (h.done_zero c hc)

theorem sortNodes_spec {nodes : List (Node O E)}
    (hlt : ∀ i, ∀ e ∈ consumersOf nodes i, e.1 < nodes.length) :
    ∀ (fuel : Nat) {done ready degrees : List Nat}, Sorting nodes done ready degrees →
      Follows nodes done (sortNodes nodes fuel ready degrees) ∧
        (sortNodes nodes fuel ready degrees).Nodup ∧
        ∀ i ∈ sortNodes nodes fuel ready degrees, i < nodes.length ∧ i ∉ done := by
  intro fuel
  induction fuel with
  | zero => intro done ready degrees _; simp [sortNodes, Follows]
  | succ fuel ih =>
    intro done ready degrees h
    cases ready with
    | nil => simp [sortNodes, Follows]
    | cons i ready =>
      obtain ⟨hil, hid, hiw⟩ := (h.mem_ready i).mp List.mem_cons_self
      obtain ⟨h1, h2, h3⟩ := ih (h.next hlt)
      have heq : sortNodes nodes (fuel + 1) (i :: ready) degrees =
          i :: sortNodes nodes fuel (release (consumersOf nodes i) ready degrees).1
            (release (consumersOf nodes i) ready degrees).2 := rfl
      rw [heq]
      refine ⟨⟨fun p hp hf => mem_done_of_waiting hp hf hiw, h1⟩, ?_, fun j hj => ?_⟩
      · exact List.nodup_cons.mpr ⟨fun hm => (h3 i hm).2 List.mem_cons_self, h2⟩
      · rcases List.mem_cons.mp hj with rfl | hj
        · exact ⟨hil, hid⟩
        · exact ⟨(h3 j hj).1, fun hm => (h3 j hj).2 (List.mem_cons_of_mem _ hm)⟩

/-- Nothing is taken at the beginning. -/
theorem Sorting.start (g : Graph O E) : Sorting g.nodes []
    ((List.range g.nodes.length).filter fun i => g.inDegrees[i]? == some 0) g.inDegrees := by
  refine ⟨fun c hc => inDegrees_spec g hc, List.nodup_range.filter _, fun c => ?_, by simp⟩
  rw [List.mem_filter, List.mem_range]
  refine and_congr_right fun hc => ?_
  rw [inDegrees_spec g hc, beq_iff_eq, Option.some.injEq]
  exact (and_iff_right List.not_mem_nil).symm

/-- **The order of a graph has every node after its producers**, and at most once. -/
theorem topologicalOrder_follows (g : Graph O E)
    (hlt : ∀ i, ∀ e ∈ consumersOf g.nodes i, e.1 < g.nodes.length) :
    Follows g.nodes [] g.topologicalOrder ∧ g.topologicalOrder.Nodup ∧
      ∀ i ∈ g.topologicalOrder, i < g.nodes.length := by
  obtain ⟨h1, h2, h3⟩ := sortNodes_spec hlt g.nodes.length (.start g)
  exact ⟨h1, h2, fun i hi => (h3 i hi).1⟩

/-! ## Completeness -/

/-- Where nodes feed later nodes only, the first node that is not taken waits for nothing. -/
theorem Sorting.mem_done {nodes : List (Node O E)} {done degrees : List Nat}
    (hup : ∀ i, ∀ e ∈ consumersOf nodes i, i < e.1) (h : Sorting nodes done [] degrees) (i : Nat)
    (hi : i < nodes.length) : i ∈ done := by
  induction i using Nat.strong_induction_on with
  | _ i ih =>
    by_contra hn
    refine List.not_mem_nil ((h.mem_ready i).mpr ⟨hi, hn, ?_⟩)
    refine Finset.sum_eq_zero fun p hp => ?_
    split
    · rfl
    · rename_i hd
      by_contra hfed
      obtain ⟨e, he, heq⟩ := List.countP_pos_iff.mp (Nat.pos_of_ne_zero hfed)
      have hlt := hup p e he
      rw [of_decide_eq_true heq] at hlt
      exact hd (ih p hlt (Finset.mem_range.mp hp))

/-- With enough fuel all nodes are taken. -/
theorem mem_sortNodes {nodes : List (Node O E)}
    (hlt : ∀ i, ∀ e ∈ consumersOf nodes i, e.1 < nodes.length)
    (hup : ∀ i, ∀ e ∈ consumersOf nodes i, i < e.1) :
    ∀ (fuel : Nat) {done ready degrees : List Nat}, Sorting nodes done ready degrees →
      ((List.range nodes.length).filter (· ∉ done)).length ≤ fuel →
      ∀ i, i < nodes.length → i ∉ done → i ∈ sortNodes nodes fuel ready degrees := by
  intro fuel
  induction fuel with
  | zero =>
    intro done ready degrees _ hfuel i hi hd
    have hnil := List.eq_nil_of_length_eq_zero (Nat.le_zero.mp hfuel)
    have hmem : i ∈ (List.range nodes.length).filter (· ∉ done) :=
      List.mem_filter.mpr ⟨List.mem_range.mpr hi, decide_eq_true hd⟩
    rw [hnil] at hmem
    exact absurd hmem List.not_mem_nil
  | succ fuel ih =>
    intro done ready degrees h hfuel i hi hd
    cases ready with
    | nil => exact absurd (h.mem_done hup i hi) hd
    | cons k ready =>
      obtain ⟨hkl, hkd, -⟩ := (h.mem_ready k).mp List.mem_cons_self
      by_cases hik : i = k
      · exact hik ▸ List.mem_cons_self
      · refine List.mem_cons_of_mem _ (ih (h.next hlt) ?_ i hi ?_)
        · -- The node that was taken is not left any more.
          have hsub : (List.range nodes.length).filter (· ∉ k :: done) =
              ((List.range nodes.length).filter (· ∉ done)).erase k := by
            rw [(List.nodup_range.filter _).erase_eq_filter, List.filter_filter]
            refine List.filter_congr fun c _ => ?_
            rw [Bool.eq_iff_iff]
            simp
          have hmem : k ∈ (List.range nodes.length).filter (· ∉ done) :=
            List.mem_filter.mpr ⟨List.mem_range.mpr hkl, decide_eq_true hkd⟩
          rw [hsub, List.length_erase_of_mem hmem]
          omega
        · rw [List.mem_cons, not_or]
          exact ⟨hik, hd⟩

/-- **The order of a graph has all nodes**, where nodes feed later nodes only. -/
theorem topologicalOrder_complete (g : Graph O E)
    (hlt : ∀ i, ∀ e ∈ consumersOf g.nodes i, e.1 < g.nodes.length)
    (hup : ∀ i, ∀ e ∈ consumersOf g.nodes i, i < e.1) :
    g.topologicalOrder.length = g.nodes.length := by
  obtain ⟨-, hnodup, hall⟩ := topologicalOrder_follows g hlt
  have hmem : ∀ i, i ∈ g.topologicalOrder ↔ i ∈ List.range g.nodes.length := fun i => by
    rw [List.mem_range]
    refine ⟨hall i, fun hi => ?_⟩
    refine mem_sortNodes hlt hup _ (.start g) ?_ i hi List.not_mem_nil
    exact (List.length_filter_le _ _).trans_eq List.length_range
  rw [((List.perm_ext_iff_of_nodup hnodup List.nodup_range).mpr hmem).length_eq, List.length_range]

/-- An order without repetitions that is as long as the list of nodes has all of them. -/
theorem mem_order {order : List Nat} {n : Nat} (hn : order.Nodup) (hlt : ∀ i ∈ order, i < n)
    (hlen : order.length = n) {i : Nat} (hi : i < n) : i ∈ order := by
  have hsub : order ⊆ List.range n := fun i hi => List.mem_range.mpr (hlt i hi)
  have hperm := (List.subperm_of_subset hn hsub).perm_of_length_le (by simp [hlen])
  exact hperm.mem_iff.mpr (List.mem_range.mpr hi)

end Graph

end DeltaView
