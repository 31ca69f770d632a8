import DeltaView.Proofs.OrderKey.Fraction
import Mathlib.Data.List.Basic

/-!
# Integer parts of order keys

An integer part is a letter with as many digits as it demands, and integer parts sort before
anything that comes after them: two different ones decide how two keys sort.

* `split_eq_ok`: a key is cut after its head letter and as many bytes as that demands.
* `increment_spec`, `decrement_spec`: counting goes one run of digits further, or starts again where
  all digits were the highest or lowest ones.
* **`next?_spec`**, **`previous?_spec`**: there is an integer part right above every one but the
  highest, and one right below every one but the lowest.
-/

namespace DeltaView

namespace OrderKey

/-! ## Heads -/

/-- The number of digits that a head demands. -/
def digitCount (head : Char) : Nat :=
  if head.isLower then head.toNat - 'a'.toNat + 1 else 'Z'.toNat - head.toNat + 1

theorem integerLength_eq {head : Char} (h : head.isAlpha = true) :
    integerLength head = .ok (digitCount head + 1) := by
  unfold integerLength digitCount
  by_cases hl : head.isLower = true
  · rw [if_pos hl, if_pos hl]
  · have hu : head.isUpper = true := ((Bool.or_eq_true _ _).mp h).resolve_right hl
    rw [if_neg hl, if_neg hl, if_pos hu]

theorem isAlphanum_of_isAlpha {c : Char} (h : c.isAlpha = true) : c.isAlphanum = true := by
  rw [Char.isAlphanum, h, Bool.true_or]

/-- The letter after one demands one digit more, or one less among the capitals. -/
theorem next_head {c : Char} (hc : c.isAlpha = true) (hZ : c ≠ 'Z') (hz : c ≠ 'z') :
    (Char.ofNat (c.toNat + 1)).isAlpha = true ∧ c < Char.ofNat (c.toNat + 1) ∧
      digitCount (Char.ofNat (c.toNat + 1)) =
        if 'a' < Char.ofNat (c.toNat + 1) then digitCount c + 1 else digitCount c - 1 := by
  have hascii := ascii_of_isAlphanum (isAlphanum_of_isAlpha hc)
  revert hc hZ hz
  refine ascii_cases hascii ?_
  decide +kernel

/-- The letter before one demands one digit less, or one more among the capitals. -/
theorem previous_head {c : Char} (hc : c.isAlpha = true) (ha : c ≠ 'a') (hA : c ≠ 'A') :
    (Char.ofNat (c.toNat - 1)).isAlpha = true ∧ Char.ofNat (c.toNat - 1) < c ∧
      digitCount (Char.ofNat (c.toNat - 1)) =
        if Char.ofNat (c.toNat - 1) < 'Z' then digitCount c + 1 else digitCount c - 1 := by
  have hascii := ascii_of_isAlphanum (isAlphanum_of_isAlpha hc)
  revert hc ha hA
  refine ascii_cases hascii ?_
  decide +kernel

theorem le_z {c : Char} (hc : c.isAlphanum = true) : ¬ 'z' < c := by
  obtain ⟨n, hn, rfl⟩ := exists_digit hc
  intro h
  have := (digit_lt_digit (m := 61) (by decide) hn).mp h
  omega

/-! ## Counting -/

/-- Two runs of one length decide how they sort whatever follows them. -/
theorem append_lt_append {u v : List Char} (hlen : u.length = v.length) (h : u < v)
    (s t : List Char) : u ++ s < v ++ t := by
  induction u generalizing v with
  | nil =>
    obtain rfl := List.length_eq_zero_iff.mp hlen.symm
    exact absurd h (List.not_lt_nil [])
  | cons c u ih =>
    cases v with
    | nil => exact absurd hlen (by simp)
    | cons d v =>
      rcases List.cons_lt_cons_iff.mp h with hlt | ⟨rfl, hrest⟩
      · exact cons_lt_of_lt hlt _ _
      · exact cons_lt_cons (ih (Nat.succ.inj hlen) hrest)

/-- **Counting up** goes to a higher run, or starts again where all digits were the highest. -/
theorem increment_spec {ds : List Char} (h : Digits ds) :
    ∃ es carry, increment ds = .ok (es, carry) ∧ Digits es ∧ es.length = ds.length ∧
      (carry = false → ds < es) ∧ (carry = true → ∀ c ∈ ds, c = 'z') := by
  induction ds with
  | nil => exact ⟨[], true, rfl, .nil, rfl, by simp, by simp⟩
  | cons c ds ih =>
    obtain ⟨hc, hds⟩ := List.forall_mem_cons.mp h
    obtain ⟨es, carry, hes, hdig, hlen, hlow, hall⟩ := ih hds
    unfold increment
    rw [hes]
    cases carry with
    | false =>
      exact ⟨c :: es, false, rfl, .cons hc hdig, congrArg Nat.succ hlen,
        fun _ => cons_lt_cons (hlow rfl), by simp⟩
    | true =>
      obtain ⟨x, hx, rfl⟩ := exists_digit hc
      rw [show (Except.ok (es, true) >>= _ : Except Fault (List Char × Bool)) =
        digitValue (digit x) >>= fun x => if x = 61 then .ok (digit 0 :: es, true)
          else .ok (digit (x + 1) :: es, false) from rfl, (digit_spec x hx).2.1]
      by_cases h61 : x = 61
      · refine ⟨digit 0 :: es, true, if_pos h61, .cons (by decide) hdig, congrArg Nat.succ hlen,
          by simp, fun _ => List.forall_mem_cons.mpr ⟨?_, hall rfl⟩⟩
        rw [h61]
        rfl
      · have hx1 : x + 1 < 62 := by omega
        refine ⟨digit (x + 1) :: es, false, if_neg h61, .cons (digit_spec _ hx1).1 hdig,
          congrArg Nat.succ hlen, fun _ => cons_lt_of_lt ?_ _ _, by simp⟩
        exact (digit_lt_digit hx hx1).mpr (Nat.lt_succ_self x)

/-- **Counting down** goes to a lower run, or starts again where all digits were the lowest. -/
theorem decrement_spec {ds : List Char} (h : Digits ds) :
    ∃ es borrow, decrement ds = .ok (es, borrow) ∧ Digits es ∧ es.length = ds.length ∧
      (borrow = false → es < ds) ∧ (borrow = true → ∀ c ∈ ds, c = '0') := by
  induction ds with
  | nil => exact ⟨[], true, rfl, .nil, rfl, by simp, by simp⟩
  | cons c ds ih =>
    obtain ⟨hc, hds⟩ := List.forall_mem_cons.mp h
    obtain ⟨es, borrow, hes, hdig, hlen, hhigh, hall⟩ := ih hds
    unfold decrement
    rw [hes]
    cases borrow with
    | false =>
      exact ⟨c :: es, false, rfl, .cons hc hdig, congrArg Nat.succ hlen,
        fun _ => cons_lt_cons (hhigh rfl), by simp⟩
    | true =>
      obtain ⟨x, hx, rfl⟩ := exists_digit hc
      rw [show (Except.ok (es, true) >>= _ : Except Fault (List Char × Bool)) =
        digitValue (digit x) >>= fun x => if x = 0 then .ok (digit 61 :: es, true)
          else .ok (digit (x - 1) :: es, false) from rfl, (digit_spec x hx).2.1]
      by_cases h0 : x = 0
      · refine ⟨digit 61 :: es, true, if_pos h0, .cons (by decide) hdig, congrArg Nat.succ hlen,
          by simp, fun _ => List.forall_mem_cons.mpr ⟨?_, hall rfl⟩⟩
        rw [h0]
        rfl
      · have hx1 : x - 1 < 62 := by omega
        refine ⟨digit (x - 1) :: es, false, if_neg h0, .cons (digit_spec _ hx1).1 hdig,
          congrArg Nat.succ hlen, fun _ => cons_lt_of_lt ?_ _ _, by simp⟩
        exact (digit_lt_digit hx1 hx).mpr (by omega)

/-- No run is above one of its length of which all digits are the highest. -/
theorem not_lt_of_highest {ds es : List Char} (hall : ∀ c ∈ ds, c = 'z') (hes : Digits es)
    (hlen : es.length = ds.length) : ¬ ds < es := by
  induction ds generalizing es with
  | nil =>
    obtain rfl := List.length_eq_zero_iff.mp hlen
    exact List.not_lt_nil []
  | cons c ds ih =>
    cases es with
    | nil => exact List.not_lt_nil _
    | cons e es =>
      obtain ⟨rfl, hrest⟩ := List.forall_mem_cons.mp hall
      obtain ⟨he, hes⟩ := List.forall_mem_cons.mp hes
      rw [List.cons_lt_cons_iff, not_or, not_and]
      exact ⟨le_z he, fun _ => ih hrest hes (Nat.succ.inj hlen)⟩

/-! ## Integer parts -/

/-- A letter and as many bytes as it demands digits. -/
def IsFrame : List Char → Prop
  | [] => False
  | head :: rest => head.isAlpha = true ∧ rest.length = digitCount head

/-- **A key is cut after its head and what the head demands.** -/
theorem split_eq_ok {cs w f : List Char} : split cs = .ok (w, f) ↔ cs = w ++ f ∧ IsFrame w := by
  cases cs with
  | nil =>
    refine iff_of_false nofun fun ⟨hnil, hw⟩ => ?_
    rw [(List.nil_eq_append_iff.mp hnil).1] at hw
    exact hw
  | cons head rest =>
    rw [split]
    by_cases halpha : head.isAlpha = true
    · rw [integerLength_eq halpha]
      show (if digitCount head + 1 ≤ rest.length + 1 then _ else _) = _ ↔ _
      constructor
      · intro h
        split_ifs at h with hlen
        obtain ⟨rfl, rfl⟩ := Prod.mk.inj (Except.ok.inj h)
        refine ⟨(List.take_append_drop _ _).symm, halpha, ?_⟩
        rw [List.length_take]
        omega
      · rintro ⟨hcs, hw⟩
        cases w with
        | nil => exact hw.elim
        | cons c w =>
          rw [List.cons_append] at hcs
          obtain ⟨rfl, rfl⟩ := List.cons.inj hcs
          have hn : (head :: w).length = digitCount head + 1 := congrArg Nat.succ hw.2
          rw [if_pos (by rw [List.length_append, hw.2]; omega), ← List.cons_append,
            List.take_left' hn, List.drop_left' hn]
    · obtain ⟨hu, hl⟩ := not_or.mp fun h => halpha ((Bool.or_eq_true _ _).mpr h)
      rw [integerLength, if_neg hl, if_neg hu]
      refine iff_of_false nofun fun ⟨hcs, hw⟩ => ?_
      cases w with
      | nil => exact hw
      | cons c w =>
        obtain ⟨rfl, -⟩ := List.cons.inj hcs
        exact halpha hw.1

/-- An integer part: a letter and the digits that it demands. -/
def IsWhole : List Char → Prop
  | [] => False
  | head :: digits => head.isAlpha = true ∧ digits.length = digitCount head ∧ Digits digits

theorem IsFrame.isWhole {w : List Char} (hw : IsFrame w) (hd : Digits w) : IsWhole w := by
  cases w with
  | nil => exact hw
  | cons head ds => exact ⟨hw.1, hw.2, hd.tail⟩

namespace IsWhole

variable {u v w : List Char}

theorem digits (h : IsWhole w) : Digits w := by
  cases w with
  | nil => exact h.elim
  | cons head ds => exact .cons (isAlphanum_of_isAlpha h.1) h.2.2

/-- Two integer parts decide how they sort whatever follows them. -/
theorem append_lt (hu : IsWhole u) (hv : IsWhole v) (h : u < v) (s t : List Char) :
    u ++ s < v ++ t := by
  cases u with
  | nil => exact hu.elim
  | cons c u =>
    cases v with
    | nil => exact hv.elim
    | cons d v =>
      rcases List.cons_lt_cons_iff.mp h with hlt | ⟨rfl, -⟩
      · exact cons_lt_of_lt hlt _ _
      · refine append_lt_append ?_ h s t
        rw [List.length_cons, List.length_cons, hu.2.1, hv.2.1]

theorem isFrame (hw : IsWhole w) : IsFrame w := by
  cases w with
  | nil => exact hw
  | cons head ds => exact ⟨hw.1, hw.2.1⟩

/-- A key is cut after its integer part. -/
theorem split_append (hw : IsWhole w) (f : List Char) : split (w ++ f) = .ok (w, f) :=
  split_eq_ok.mpr ⟨rfl, hw.isFrame⟩

/-- The integer part of which all digits are the highest has none above it. -/
theorem not_above {ds : List Char} (hall : ∀ c ∈ ds, c = 'z') (hv : IsWhole v)
    (hlen : ds.length = digitCount 'z') : ¬ 'z' :: ds < v := by
  cases v with
  | nil => exact hv.elim
  | cons d v =>
    rw [List.cons_lt_cons_iff, not_or, not_and]
    refine ⟨le_z (isAlphanum_of_isAlpha hv.1), ?_⟩
    rintro rfl
    exact not_lt_of_highest hall hv.2.2 (hv.2.1.trans hlen.symm)

end IsWhole

variable {w : List Char}

/-- **There is an integer part above every one but the highest.** -/
theorem next?_spec (hw : IsWhole w) :
    (∃ v, next? w = .ok (some v) ∧ IsWhole v ∧ w < v) ∨
      (next? w = .ok none ∧ ∀ v, IsWhole v → ¬ w < v) := by
  cases w with
  | nil => exact hw.elim
  | cons head ds =>
    obtain ⟨hhead, hlen, hds⟩ := hw
    obtain ⟨es, carry, hes, hdig, heslen, hlow, hall⟩ := increment_spec hds
    rw [next?, hes]
    cases carry with
    | false => exact Or.inl ⟨_, rfl, ⟨hhead, heslen.trans hlen, hdig⟩, cons_lt_cons (hlow rfl)⟩
    | true =>
      show (∃ v, (if head = 'Z' then _ else if head = 'z' then _ else _) = _ ∧ _) ∨ _
      by_cases hZ : head = 'Z'
      · rw [if_pos hZ]
        refine Or.inl ⟨['a', '0'], rfl, ⟨by decide, by decide, .cons (by decide) .nil⟩, ?_⟩
        exact cons_lt_of_lt (hZ ▸ by decide) _ _
      · rw [if_neg hZ]
        by_cases hz : head = 'z'
        · subst hz
          exact Or.inr ⟨rfl, fun v hv => IsWhole.not_above (hall rfl) hv hlen⟩
        · obtain ⟨halpha, hlt, hcount⟩ := next_head hhead hZ hz
          rw [if_neg hz]
          refine Or.inl ⟨_, rfl, ⟨halpha, ?_, ?_⟩, cons_lt_of_lt hlt _ _⟩
          · rw [hcount]
            split_ifs
            · rw [List.length_append, heslen, hlen, List.length_singleton]
            · rw [List.length_dropLast, heslen, hlen]
          · split_ifs
            · exact hdig.append (.cons (by decide) .nil)
            · exact hdig.sublist (List.dropLast_sublist es)

/-- **There is an integer part below every one but the lowest.** -/
theorem previous?_spec (hw : IsWhole w) (hne : w ≠ smallest) :
    ∃ v, previous? w = .ok (some v) ∧ IsWhole v ∧ v < w := by
  cases w with
  | nil => exact hw.elim
  | cons head ds =>
    obtain ⟨hhead, hlen, hds⟩ := hw
    obtain ⟨es, borrow, hes, hdig, heslen, hhigh, hall⟩ := decrement_spec hds
    rw [previous?, hes]
    cases borrow with
    | false => exact ⟨_, rfl, ⟨hhead, heslen.trans hlen, hdig⟩, cons_lt_cons (hhigh rfl)⟩
    | true =>
      show ∃ v, (if head = 'a' then _ else if head = 'A' then _ else _) = _ ∧ _
      by_cases ha : head = 'a'
      · rw [if_pos ha]
        refine ⟨['Z', 'z'], rfl, ⟨by decide, by decide, .cons (by decide) .nil⟩, ?_⟩
        exact cons_lt_of_lt (ha ▸ by decide) _ _
      · have hA : head ≠ 'A' := by
          rintro rfl
          refine hne (congrArg ('A' :: ·) (List.eq_replicate_iff.mpr ⟨hlen, hall rfl⟩))
        obtain ⟨halpha, hlt, hcount⟩ := previous_head hhead ha hA
        rw [if_neg ha, if_neg hA]
        refine ⟨_, rfl, ⟨halpha, ?_, ?_⟩, cons_lt_of_lt hlt _ _⟩
        · rw [hcount]
          split_ifs
          · rw [List.length_append, heslen, hlen, List.length_singleton]
          · rw [List.length_dropLast, heslen, hlen]
        · split_ifs
          · exact hdig.append (.cons (by decide) .nil)
          · exact hdig.sublist (List.dropLast_sublist es)

end OrderKey

end DeltaView
