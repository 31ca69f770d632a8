import DeltaView.Proofs.Group.Members
import DeltaView.Proofs.Number.Zero

/-!
# Sums and averages of the numbers of a group

A member whose value is no number adds a zero to a sum, and that leaves both totals as they are. It
is not without trace, though: it makes an integer sum a float, and an average counts it.

* `Agrees`: running sums of the same totals; a term that is no number keeps them so (`Agrees.other`),
  and so does a number that is added to both (`Agrees.add`).
* `total_ofTerms`, `average_ofTerms`: the sum and the average by the numbers alone, by whether there
  are other values, and by how many.
* **`Aggregate.compute_of_same_numbers`**: for groups of the same numbers, when the sum and the average
  are the same.
* `Aggregate.compute_of_text`: not otherwise.
-/

namespace DeltaView

namespace RunningSum

variable {s s' : RunningSum} {v : Value} {m : Int} {terms : Delta Value}

/-- The terms that are numbers. -/
def numbers (terms : Delta Value) : Delta Value := terms.filter (·.1.isNumber)

/-- Running sums of the same exact and the same rounded total. -/
structure Agrees (s s' : RunningSum) : Prop where
  exact : s.exact = s'.exact
  rounded : s.rounded = s'.rounded

/-- What a term adds to the rounded total. -/
def term (v : Value) (m : Int) : Double := ((v.asDouble?).getD .zero).mul (Double.ofInt m)

theorem rounded_add (s : RunningSum) (v : Value) (m : Int) :
    (s.add v m).rounded = s.rounded.add (term v m) := by
  cases v <;> rfl

theorem isTotal_add (hs : s.rounded.IsTotal) (v : Value) (m : Int) :
    (s.add v m).rounded.IsTotal := by
  rw [rounded_add]
  exact hs.add _

/-- A term that is added to both of two sums keeps their totals the same. -/
theorem Agrees.add (h : Agrees s s') (v : Value) (m : Int) : Agrees (s.add v m) (s'.add v m) := by
  refine ⟨?_, by rw [rounded_add, rounded_add, h.rounded]⟩
  cases v with
  | int n => rw [add_exact_int, add_exact_int, h.exact]
  | _ => exact h.exact

/-- **A term that is no number leaves the totals as they are.** -/
theorem Agrees.other (h : Agrees s s') (hs : s.rounded.IsTotal) (hv : v.isNumber = false)
    (hm : FitsInt64 m) : Agrees (s.add v m) s' := by
  have hterm : (term v m).ActsAsZero := by
    have hnone : v.asDouble? = none := by
      cases v <;> first | rfl | exact nomatch hv
    rw [term, hnone, Option.getD_none]
    exact Double.actsAsZero_mul (Double.isFinite_ofInt (by have := hm.1; have := hm.2; omega))
  refine ⟨?_, by rw [rounded_add, hs.add_zero hterm, h.rounded]⟩
  cases v with
  | int n => exact nomatch hv
  | _ => exact h.exact

/-- **The totals are those of the numbers.** -/
theorem Agrees.after (h : Agrees s s') (hs : s.rounded.IsTotal)
    (hfit : ∀ t ∈ terms, FitsInt64 t.2) : Agrees (s.after terms) (s'.after (numbers terms)) := by
  induction terms generalizing s s' with
  | nil => exact h
  | cons t terms ih =>
    obtain ⟨v, m⟩ := t
    have hrest := fun t ht => hfit t (List.mem_cons_of_mem _ ht)
    rw [numbers, List.filter_cons]
    split_ifs with hv
    · exact ih (h.add v m) (isTotal_add hs v m) hrest
    · exact ih (h.other hs (by simpa using hv) (hfit _ List.mem_cons_self)) (isTotal_add hs v m)
        hrest

theorem agrees_ofTerms (hfit : ∀ t ∈ terms, FitsInt64 t.2) :
    Agrees (ofTerms terms) (ofTerms (numbers terms)) :=
  Agrees.after ⟨rfl, rfl⟩ Double.isTotal_zero hfit

/-! ## Sum and average by the numbers -/

/-- Is there a term that is no number? -/
def IsMixed (terms : Delta Value) : Prop := ∃ t ∈ terms, t.1.isNumber = false

instance (terms : Delta Value) : Decidable (IsMixed terms) :=
  inferInstanceAs (Decidable (∃ t ∈ terms, _))

theorem kind_ne_int (hv : v.isNumber = false) : v.kind ≠ .int := by
  cases v <;> simp [Value.kind, Value.isNumber] at hv ⊢

theorem total_of_not_allInts (h : s.allInts = false) : s.total = .float s.rounded := by
  unfold total
  rw [h]
  cases s.exact <;> rfl

/-- A total is an integer or the rounded total. -/
theorem total_cases (s : RunningSum) : (∃ n, s.total = .int n) ∨ s.total = .float s.rounded := by
  unfold total
  cases s.exact <;> cases s.allInts <;> simp

/-- **A sum is that of the numbers**, as a float if there are other values. -/
theorem total_ofTerms (hfit : ∀ t ∈ terms, FitsInt64 t.2) :
    (ofTerms terms).total =
      if IsMixed terms then .float (ofTerms (numbers terms)).rounded
      else (ofTerms (numbers terms)).total := by
  split_ifs with hmixed
  · obtain ⟨t, ht, hv⟩ := hmixed
    have hall : (ofTerms terms).allInts = false := by
      rw [ofTerms_eq, allInts_after, Bool.and_eq_false_iff, List.all_eq_false]
      exact Or.inr ⟨t, ht, fun h => kind_ne_int hv (beq_iff_eq.mp h)⟩
    rw [total_of_not_allInts hall, (agrees_ofTerms hfit).rounded]
  · have hall : numbers terms = terms := List.filter_eq_self.mpr fun t ht =>
      Bool.not_eq_false _ ▸ fun h => hmixed ⟨t, ht, h⟩
    rw [hall]

/-- The quotient of a total and a number of terms, where there are any. -/
def quotient (total : Value) (count : Int) : Value :=
  match total.asDouble? with
  | some t => if 0 < count then .float (t.div (Double.ofInt count)) else .null
  | none => .null

/-- **An average divides the sum by how many terms there are**, numbers or not. -/
theorem average_ofTerms (terms : Delta Value) :
    (ofTerms terms).average = quotient (ofTerms terms).total (Delta.mass terms) := by
  have hcount : (ofTerms terms).count = Delta.mass terms :=
    (count_after terms start).trans (zero_add _)
  rw [average, hcount]
  rfl

end RunningSum

namespace Aggregate

/-- The members with a number. -/
def numbers (a : Aggregate) (members : Delta Row) : Delta Row :=
  members.filter fun e => (a.arg e.1.value).isNumber

/-- Does a member have a value that is no number, and is there at all? -/
def IsMixed (a : Aggregate) (members : Delta Row) : Prop :=
  ∃ e ∈ members, (a.arg e.1.value).isNumber = false ∧ (a.arg e.1.value).isNull = false

/-- The sum of a group, whatever the aggregate is to be. -/
def total (a : Aggregate) (members : Delta Row) : Value :=
  (RunningSum.ofTerms (a.terms members)).total

theorem mem_terms {a : Aggregate} {members : Delta Row} {t : Value × Int} :
    t ∈ a.terms members ↔
      ∃ e ∈ members, (a.arg e.1.value).isNull = false ∧ (a.arg e.1.value, e.2) = t := by
  unfold terms Delta.filterItems Delta.mapItems
  rw [List.mem_filter, List.mem_map]
  constructor
  · rintro ⟨⟨e, he, rfl⟩, hnull⟩
    exact ⟨e, he, Bool.not_eq_true' _ ▸ hnull, rfl⟩
  · rintro ⟨e, he, hnull, rfl⟩
    exact ⟨⟨e, he, rfl⟩, Bool.not_eq_true' _ ▸ hnull⟩

theorem terms_numbers (a : Aggregate) (members : Delta Row) :
    a.terms (a.numbers members) = RunningSum.numbers (a.terms members) :=
  a.terms_filter (·.1.isNumber) members

theorem isMixed_terms (a : Aggregate) (members : Delta Row) :
    RunningSum.IsMixed (a.terms members) ↔ a.IsMixed members := by
  constructor
  · rintro ⟨t, ht, hnumber⟩
    obtain ⟨e, he, hnull, rfl⟩ := mem_terms.mp ht
    exact ⟨e, he, hnumber, hnull⟩
  · rintro ⟨e, he, hnumber, hnull⟩
    exact ⟨_, mem_terms.mpr ⟨e, he, hnull, rfl⟩, hnumber⟩

theorem fits_terms (a : Aggregate) {members : Delta Row} (h : ∀ e ∈ members, FitsInt64 e.2) :
    ∀ t ∈ a.terms members, FitsInt64 t.2 := by
  intro t ht
  obtain ⟨e, he, -, rfl⟩ := mem_terms.mp ht
  exact h e he

/-- **The sum of a group is that of its numbers**, as a float if there are other values. -/
theorem total_eq (a : Aggregate) {members : Delta Row} (h : ∀ e ∈ members, FitsInt64 e.2) :
    (¬ a.IsMixed members → a.total members = a.total (a.numbers members)) ∧
      (a.IsMixed members → a.total members =
        .float (RunningSum.ofTerms (a.terms (a.numbers members))).rounded) := by
  have htotal := RunningSum.total_ofTerms (a.fits_terms h)
  rw [← terms_numbers] at htotal
  exact ⟨fun hmixed => htotal.trans (if_neg (mt (a.isMixed_terms members).mp hmixed)),
    fun hmixed => htotal.trans (if_pos ((a.isMixed_terms members).mpr hmixed))⟩

/-- Where the sum of the numbers is a float, other values change nothing about it. -/
theorem total_of_float (a : Aggregate) {members : Delta Row} (h : ∀ e ∈ members, FitsInt64 e.2)
    {x : Double} (hx : a.total (a.numbers members) = .float x) : a.total members = .float x := by
  by_cases hmixed : a.IsMixed members
  · rcases RunningSum.total_cases (RunningSum.ofTerms (a.terms (a.numbers members))) with
      ⟨n, hn⟩ | hfloat
    · exact nomatch hn.symm.trans hx
    · exact ((a.total_eq h).2 hmixed).trans (hfloat.symm.trans hx)
  · exact ((a.total_eq h).1 hmixed).trans hx

variable {members members' : Delta Row}

/-- **Groups of the same numbers have the same sum** if both or none have other values, or the sum of
the numbers is a float, and only then. -/
theorem total_eq_iff (a : Aggregate) (hfit : ∀ e ∈ members, FitsInt64 e.2)
    (hfit' : ∀ e ∈ members', FitsInt64 e.2) (hsame : a.numbers members = a.numbers members') :
    a.total members = a.total members' ↔
      (a.IsMixed members ↔ a.IsMixed members') ∨ ∃ x, a.total (a.numbers members) = .float x := by
  rcases RunningSum.total_cases (RunningSum.ofTerms (a.terms (a.numbers members))) with
    ⟨n, hn⟩ | hfloat
  · -- An integer is no float, so the groups show which of them has other values.
    have hn : a.total (a.numbers members) = .int n := hn
    have hn' : a.total (a.numbers members') = .int n := hsame ▸ hn
    obtain ⟨hpure, hmixed⟩ := a.total_eq hfit
    obtain ⟨hpure', hmixed'⟩ := a.total_eq hfit'
    have hno : ¬ ∃ x, a.total (a.numbers members) = .float x := by
      rw [hn]
      exact fun ⟨x, hx⟩ => nomatch hx
    rw [or_iff_left hno]
    by_cases h : a.IsMixed members <;> by_cases h' : a.IsMixed members'
    · rw [hmixed h, hmixed' h', hsame]
      exact iff_of_true rfl (iff_of_true h h')
    · rw [hmixed h, hpure' h', hn']
      exact iff_of_false nofun fun hiff => h' (hiff.mp h)
    · rw [hpure h, hmixed' h', hn]
      exact iff_of_false nofun fun hiff => h (hiff.mpr h')
    · rw [hpure h, hpure' h', hsame]
      exact iff_of_true rfl (iff_of_false h h')
  · have htotal := a.total_of_float hfit hfloat
    have htotal' := a.total_of_float hfit' (by rw [← hsame]; exact hfloat)
    exact iff_of_true (htotal.trans htotal'.symm) (Or.inr ⟨_, hfloat⟩)

/-- **Sums and averages of groups of the same numbers.** The sum is the same just where both groups
or none have values that are no numbers, or the sum of the numbers is a float anyway. The average is
the same where the sum is and both groups have as many values. -/
theorem compute_of_same_numbers (a : Aggregate) (hfit : ∀ e ∈ members, FitsInt64 e.2)
    (hfit' : ∀ e ∈ members', FitsInt64 e.2) (hsame : a.numbers members = a.numbers members') :
    let agree := (a.IsMixed members ↔ a.IsMixed members') ∨
      ∃ x, a.total (a.numbers members) = .float x
    (a.kind = .sum → (a.compute members = a.compute members' ↔ agree)) ∧
      (a.kind = .avg → agree → Delta.mass (a.terms members) = Delta.mass (a.terms members') →
        a.compute members = a.compute members') := by
  intro agree
  have htotal := a.total_eq_iff hfit hfit' hsame
  refine ⟨fun hk => ?_, fun hk hagree hmass => ?_⟩
  · simp only [compute, hk]
    exact htotal
  · simp only [compute, hk, RunningSum.average_ofTerms, hmass]
    exact congrArg (RunningSum.quotient · _) (htotal.mpr hagree)

/-- A text among numbers of which one is a float leaves the sum as it is, and one text in the place
of another the average. -/
theorem compute_of_two_texts :
    let row (v : Value) : Row × Int := ({ key := .plain v, value := v }, 1)
    let plain := [row (.int 2), row (.float ⟨0x3FE0000000000000⟩)]
    let mixed := plain ++ [row (.string "a")]
    let other := row (.string "b") :: plain
    let sum : Aggregate := ⟨"total", .sum, id⟩
    let mean : Aggregate := ⟨"mean", .avg, id⟩
    sum.compute mixed = sum.compute plain ∧ mean.compute mixed = mean.compute other := by
  intro row plain mixed other sum mean
  have hfit : (∀ e ∈ plain, FitsInt64 e.2) ∧ (∀ e ∈ mixed, FitsInt64 e.2) ∧
      ∀ e ∈ other, FitsInt64 e.2 := by
    unfold FitsInt64
    decide
  have hfloat : sum.total (sum.numbers mixed) = .float ⟨0x4004000000000000⟩ := by decide +kernel
  have hmixed : mean.IsMixed mixed := ⟨row (.string "a"), by decide +kernel, rfl, rfl⟩
  have hother : mean.IsMixed other := ⟨row (.string "b"), by decide +kernel, rfl, rfl⟩
  obtain ⟨hsum, -⟩ := compute_of_same_numbers sum hfit.2.1 hfit.1 (by decide +kernel)
  obtain ⟨-, hmean⟩ := compute_of_same_numbers mean hfit.2.1 hfit.2.2 (by decide +kernel)
  exact ⟨(hsum rfl).mpr (Or.inr ⟨_, hfloat⟩),
    hmean rfl (Or.inl (iff_of_true hmixed hother)) (by decide +kernel)⟩

/-- A text makes the sum of an integer a float, and an average counts it as one more number. -/
theorem compute_of_text :
    let row (v : Value) : Row × Int := ({ key := .plain v, value := v }, 1)
    let sum : Aggregate := ⟨"total", .sum, id⟩
    let mean : Aggregate := ⟨"mean", .avg, id⟩
    let ten := [row (.int 10)]
    let mixed := [row (.int 10), row (.string "a")]
    sum.numbers mixed = sum.numbers ten ∧
      sum.compute ten = .int 10 ∧ sum.compute mixed = .float (Double.ofInt 10) ∧
      mean.compute ten = .float (Double.ofInt 10) ∧ mean.compute mixed = .float (Double.ofInt 5) := by
  decide +kernel

end Aggregate

end DeltaView
