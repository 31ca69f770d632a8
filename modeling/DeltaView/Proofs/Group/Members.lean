import DeltaView.Proofs.Group.Extreme
import DeltaView.Proofs.Group.Run
import DeltaView.Proofs.Group.Sum

/-!
# Aggregates and the order of members

The members of a group have no order of their own, and an aggregate visits them in whichever order
they are listed.

* **`compute_perm`**: what of an aggregate is the same for every order of the members, and when all of
  it is.
* `compute_depends_on_order`: not otherwise.
-/

namespace DeltaView

namespace Aggregate

theorem terms_perm (a : Aggregate) {members members' : Delta Row} (h : members.Perm members') :
    (a.terms members).Perm (a.terms members') := (h.map _).filter _

theorem terms_append (a : Aggregate) (members members' : Delta Row) :
    a.terms (members ++ members') = a.terms members ++ a.terms members' := by
  rw [terms, Delta.mapItems_append, Delta.filterItems_append, terms, terms]

/-- Members may be taken apart by a test of their terms. -/
theorem terms_filter (a : Aggregate) (p : Value × Int → Bool) (members : Delta Row) :
    a.terms (members.filter fun e => p (a.arg e.1.value, e.2)) = (a.terms members).filter p := by
  unfold terms Delta.filterItems Delta.mapItems
  rw [List.filter_filter, List.filter_map, List.filter_map, List.filter_filter]
  refine congrArg _ (List.filter_congr fun e _ => ?_)
  exact Bool.and_comm _ _

/-- **Integers whose gains or losses do not fit are summed up to a float in some order.** -/
theorem exists_lossy_order (a : Aggregate) {members : Delta Row}
    (h : ¬ RunningSum.Fits (a.terms members)) :
    ∃ order : Delta Row, order.Perm members ∧
      ∀ n, (RunningSum.ofTerms (a.terms order)).total ≠ .int n := by
  obtain ⟨p, hp⟩ := RunningSum.exists_lossy_part h
  let q : Row × Int → Bool := fun e => p (a.arg e.1.value, e.2)
  refine ⟨members.filter q ++ members.filter (!q ·), List.filter_append_perm q members, fun n => ?_⟩
  rw [terms_append, terms_filter]
  exact RunningSum.total_ne_int_of_first hp _ n

/-- **Aggregates and the order of members.** Counts do not depend on it. Least and greatest values are
of one rounded size for every order, and are one value unless an integer and a float tie for the
place. A sum of integers that is an integer is exact; the sum and the average of integers do not
depend on the order if gains and losses fit 64 bits, and only then is the sum the exact integer for
every order. -/
theorem compute_perm (a : Aggregate) {members members' : Delta Row} (h : members.Perm members') :
    let terms := a.terms members
    (a.kind = .count → a.compute members' = a.compute members) ∧
      (a.kind = .min ∨ a.kind = .max →
        (a.compute members').rounded = (a.compute members).rounded ∧
          (Value.Untied (· = (a.compute members).rounded) (terms.map (·.1)) →
            a.compute members' = a.compute members)) ∧
      ((∀ t ∈ terms, t.1.kind = .int) →
        (a.kind = .sum ∨ a.kind = .avg → RunningSum.Fits terms →
          a.compute members' = a.compute members) ∧
        (a.kind = .sum →
          (∀ n, a.compute members = .int n → n.toInt = RunningSum.exactSum terms) ∧
          ((∀ order : Delta Row, order.Perm members →
              a.compute order = .int (Int64.ofInt (RunningSum.exactSum terms))) ↔
            RunningSum.Fits terms))) := by
  intro terms
  have hterms : terms.Perm (a.terms members') := a.terms_perm h
  have hvalues : (terms.map (·.1)).Perm ((a.terms members').map (·.1)) := hterms.map _
  refine ⟨fun hk => (compute_count_perm hk h).symm, fun hk => ?_, fun hint => ⟨fun hk hf => ?_,
    fun hk => ⟨fun n hn => ?_, fun hall => ?_, fun hf order ho => ?_⟩⟩⟩
  · rcases hk with hk | hk
    · simp only [compute, hk]
      exact Value.picksExtreme_least?.perm hvalues
    · simp only [compute, hk]
      exact Value.picksExtreme_greatest?.perm hvalues
  · have htotal : (RunningSum.ofTerms (a.terms members')).total =
        (RunningSum.ofTerms terms).total := by
      rw [RunningSum.total_of_fits hint hf, RunningSum.total_of_fits
        (fun t ht => hint t (hterms.mem_iff.mpr ht)) (hf.perm hterms), RunningSum.exactSum_perm hterms]
    have hcount : (RunningSum.ofTerms (a.terms members')).count =
        (RunningSum.ofTerms terms).count := by
      rw [RunningSum.ofTerms_eq, RunningSum.ofTerms_eq, RunningSum.count_after,
        RunningSum.count_after, (Delta.same_of_perm hterms).mass]
    rcases hk with hk | hk
    · simp only [compute, hk]
      exact htotal
    · simp only [compute, hk, RunningSum.average]
      rw [htotal, hcount]
  · simp only [compute, hk] at hn
    exact RunningSum.total_exact hn
  · by_contra hf
    obtain ⟨order, ho, hne⟩ := a.exists_lossy_order hf
    have hsum := hall order ho
    simp only [compute, hk] at hsum
    exact hne _ hsum
  · have hp : terms.Perm (a.terms order) := a.terms_perm ho.symm
    simp only [compute, hk]
    rw [RunningSum.total_of_fits (fun t ht => hint t (hp.mem_iff.mpr ht)) (hf.perm hp),
      RunningSum.exactSum_perm hp]

/-- The sum of three integers of both signs, listed the other way round. -/
theorem compute_perm_of_three :
    let row (n : Int64) : Row × Int := ({ key := .plain (.int n), value := .int n }, 2)
    let sum : Aggregate := ⟨"total", .sum, id⟩
    sum.compute [row 5, row (-7), row 3] = .int 2 ∧
      sum.compute [row 3, row (-7), row 5] = sum.compute [row 5, row (-7), row 3] := by
  intro row sum
  have hp : [row 5, row (-7), row 3].Perm [row 3, row (-7), row 5] := by decide +kernel
  have hint : ∀ t ∈ sum.terms [row 5, row (-7), row 3], t.1.kind = .int := by decide
  have hf : RunningSum.Fits (sum.terms [row 5, row (-7), row 3]) := by
    unfold RunningSum.Fits FitsInt64
    decide
  obtain ⟨-, -, hsum⟩ := compute_perm sum hp
  exact ⟨((hsum hint).2 rfl).2.mpr hf _ (List.Perm.refl _), (hsum hint).1 (Or.inl rfl) hf⟩

/-- A total that fits is lost where the sum runs over on its way, and the least of 1 and 1.0 is the
one that is listed first. -/
theorem compute_depends_on_order :
    let row (v : Value) : Row × Int := ({ key := .plain v, value := v }, 1)
    let big := row (.int Int64.maxValue)
    let sum : Aggregate := ⟨"total", .sum, id⟩
    let least : Aggregate := ⟨"least", .min, id⟩
    let one := Value.float (Double.ofInt 1)
    [big, row (.int 1), row (.int (-1))].Perm [big, row (.int (-1)), row (.int 1)] ∧
      sum.compute [big, row (.int (-1)), row (.int 1)] = .int Int64.maxValue ∧
      sum.compute [big, row (.int 1), row (.int (-1))] ≠ .int Int64.maxValue ∧
      least.compute [row (.int 1), row one] = .int 1 ∧ least.compute [row one, row (.int 1)] = one := by
  intro row big sum least one
  refine ⟨(List.Perm.swap _ _ _).cons _, ?_, ?_, by decide +kernel, by decide +kernel⟩
  · refine (RunningSum.total_eq_int
      (s := RunningSum.ofTerms (sum.terms [big, row (.int (-1)), row (.int 1)]))).mpr ⟨?_, ?_⟩
    · decide +kernel
    · decide +kernel
  · have hfirst : ¬ FitsInt64 (RunningSum.exactSum (sum.terms [big, row (.int 1)])) := by
      unfold FitsInt64
      decide
    exact RunningSum.total_ne_int_of_first hfirst (sum.terms [row (.int (-1))]) _

end Aggregate

end DeltaView
