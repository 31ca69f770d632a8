import DeltaView.OrderKey
import DeltaView.Proofs.Except
import Mathlib.Data.List.Basic

/-!
# Fractions of order keys

Digits sort as their values do, and a fraction is a run of digits in which a last `0` would say
nothing.

* `exists_digit`, `digit_lt_digit`: a digit is given by its value, and so is its place among others.
* **`above_spec`**: there is a fraction above every run of digits.
* **`midpoint_spec`**: there is one between any two runs, where the upper one is a fraction.
-/

namespace DeltaView

namespace OrderKey

/-! ## Digits -/

/-- A run of base-62 digits. -/
def Digits (cs : List Char) : Prop := ∀ c ∈ cs, c.isAlphanum = true

-- Named, since the instance found for the statement may go over all characters.
instance Digits.decidable : DecidablePred Digits :=
  List.decidableBAll fun c : Char => c.isAlphanum = true

theorem Digits.nil : Digits [] := fun _ h => absurd h List.not_mem_nil

theorem Digits.cons {c : Char} {cs : List Char} (hc : c.isAlphanum = true) (h : Digits cs) :
    Digits (c :: cs) := List.forall_mem_cons.mpr ⟨hc, h⟩

theorem Digits.tail {cs : List Char} (h : Digits cs) : Digits cs.tail := fun c hc =>
  h c (List.mem_of_mem_tail hc)

theorem Digits.append {cs ds : List Char} (hc : Digits cs) (hd : Digits ds) : Digits (cs ++ ds) :=
  fun c h => (List.mem_append.mp h).elim (hc c) (hd c)

theorem Digits.sublist {cs ds : List Char} (h : Digits ds) (hs : cs.Sublist ds) : Digits cs :=
  fun c hc => h c (hs.subset hc)

theorem ascii_of_isAlphanum {c : Char} (h : c.isAlphanum = true) : c.toNat < 128 := by
  change ((decide ('A'.val ≤ c.val ∧ c.val ≤ 'Z'.val) || ('a'.val ≤ c.val && c.val ≤ 'z'.val)) ||
    ('0'.val ≤ c.val && c.val ≤ '9'.val)) = true at h
  simp only [Bool.or_eq_true, Bool.and_eq_true, decide_eq_true_eq, UInt32.le_iff_toNat_le] at h
  change ((65 ≤ c.toNat ∧ c.toNat ≤ 90) ∨ (97 ≤ c.toNat ∧ c.toNat ≤ 122)) ∨
    (48 ≤ c.toNat ∧ c.toNat ≤ 57) at h
  omega

/-- What holds of all ASCII characters can be checked one by one. -/
@[elab_as_elim]
theorem ascii_cases {motive : Char → Prop} {c : Char} (hc : c.toNat < 128)
    (ascii : ∀ n < 128, motive (Char.ofNat n)) : motive c := by
  have hcase := ascii c.toNat hc
  rwa [Char.ofNat_toNat] at hcase

theorem digit_spec : ∀ n < 62, (digit n).isAlphanum = true ∧ digitValue (digit n) = .ok n ∧
    (digit n).toNat = if n < 10 then 48 + n else if n < 36 then 55 + n else 61 + n := by
  decide +kernel

/-- A digit is given by its value. -/
theorem exists_digit {c : Char} (h : c.isAlphanum = true) : ∃ n < 62, c = digit n := by
  have hascii := ascii_of_isAlphanum h
  revert h
  refine ascii_cases hascii ?_
  decide +kernel

/-- **Digits sort as their values do.** -/
theorem digit_lt_digit {m n : Nat} (hm : m < 62) (hn : n < 62) : digit m < digit n ↔ m < n := by
  obtain ⟨-, -, h1⟩ := digit_spec m hm
  obtain ⟨-, -, h2⟩ := digit_spec n hn
  rw [Char.lt_def, UInt32.lt_iff_toNat_lt]
  show (digit m).toNat < (digit n).toNat ↔ _
  rw [h1, h2]
  split_ifs <;> omega

theorem digit_ne_zero {n : Nat} (hpos : 0 < n) (hn : n < 62) : digit n ≠ '0' := fun h => by
  have := (digit_lt_digit (m := 0) (by decide) hn).mpr hpos
  rw [h] at this
  exact absurd this (by decide)

/-! ## Runs that do not end in `0` -/

/-- A fraction: a run of digits that does not end in `0`. -/
structure Fraction (cs : List Char) : Prop where
  digits : Digits cs
  last : cs.getLast? ≠ some '0'

theorem Fraction.nil : Fraction [] := ⟨.nil, by simp⟩

theorem Fraction.single {n : Nat} (hpos : 0 < n) (hn : n < 62) : Fraction [digit n] :=
  ⟨.cons (digit_spec n hn).1 .nil, by simpa using digit_ne_zero hpos hn⟩

theorem getLast?_cons_of_ne_nil {c : Char} {cs : List Char} (h : cs ≠ []) :
    (c :: cs).getLast? = cs.getLast? := by
  obtain ⟨d, ds, rfl⟩ := List.exists_cons_of_ne_nil h
  exact List.getLast?_cons_cons

theorem Fraction.cons {c : Char} {cs : List Char} (hc : c.isAlphanum = true) (h : Fraction cs)
    (hne : cs ≠ []) : Fraction (c :: cs) :=
  ⟨.cons hc h.digits, getLast?_cons_of_ne_nil hne ▸ h.last⟩

theorem Fraction.of_cons {c : Char} {cs : List Char} (h : Fraction (c :: cs)) : Fraction cs := by
  refine ⟨h.digits.tail, ?_⟩
  by_cases hne : cs = []
  · simp [hne]
  · rw [← getLast?_cons_of_ne_nil hne]
    exact h.last

theorem ne_nil_of_lt {cs ds : List Char} (h : cs < ds) : ds ≠ [] := by
  rintro rfl
  exact absurd h (List.not_lt_nil cs)

theorem cons_lt_cons {c : Char} {cs ds : List Char} (h : cs < ds) : c :: cs < c :: ds :=
  List.cons_lt_cons_iff.mpr (Or.inr ⟨rfl, h⟩)

theorem cons_lt_of_lt {c d : Char} (h : c < d) (cs ds : List Char) : c :: cs < d :: ds :=
  List.cons_lt_cons_iff.mpr (Or.inl h)

/-! ## Fractions in between -/

/-- **There is a fraction above every run of digits.** -/
theorem above_spec {a : List Char} (h : Digits a) :
    ∃ f, above a = .ok f ∧ Fraction f ∧ a < f := by
  induction a with
  | nil => exact ⟨[digit 31], rfl, .single (by decide) (by decide), List.nil_lt_cons _ _⟩
  | cons c a ih =>
    obtain ⟨hc, ha⟩ := List.forall_mem_cons.mp h
    obtain ⟨x, hx, rfl⟩ := exists_digit hc
    obtain ⟨-, hvalue, -⟩ := digit_spec x hx
    unfold above
    by_cases hroom : 1 < 62 - x
    · refine ⟨[digit ((x + 63) / 2)], ?_, .single (by omega) (by omega), cons_lt_of_lt ?_ _ _⟩
      · rw [hvalue]
        exact if_pos hroom
      · exact (digit_lt_digit hx (by omega)).mpr (by omega)
    · -- The first digit is the last one there is.
      obtain ⟨rest, hrest, hf, hlt⟩ := ih ha
      refine ⟨digit x :: rest, ?_, hf.cons hc (ne_nil_of_lt hlt), cons_lt_cons hlt⟩
      rw [hvalue, hrest]
      exact if_neg hroom

/-- Two different first digits, where a run that is used up goes on with zeros. -/
theorem head_lt {a ds : List Char} {d : Char} (ha : Digits a) (hd : d.isAlphanum = true)
    (hlt : a < d :: ds) (hne : a.headD '0' ≠ d) :
    ∃ x y, x < y ∧ y < 62 ∧ a.headD '0' = digit x ∧ d = digit y := by
  obtain ⟨y, hy, rfl⟩ := exists_digit hd
  cases a with
  | nil => exact ⟨0, y, Nat.pos_of_ne_zero fun h => hne (h ▸ rfl), hy, rfl, rfl⟩
  | cons c a =>
    obtain ⟨x, hx, rfl⟩ := exists_digit (ha c List.mem_cons_self)
    rcases List.cons_lt_cons_iff.mp hlt with h | ⟨h, -⟩
    · exact ⟨x, y, (digit_lt_digit hx hy).mp h, hy, rfl, rfl⟩
    · exact absurd h hne

/-- A run is below another one that begins with the same digit, if its rest is below that one's. -/
theorem lt_cons_of_tail_lt {a cs : List Char} {d : Char} (hd : a.headD '0' = d)
    (h : a.tail < cs) : a < d :: cs := by
  cases a with
  | nil => exact List.nil_lt_cons d cs
  | cons c a =>
    obtain rfl : c = d := hd
    exact cons_lt_cons h

/-- A run is below all that begin with a higher digit. -/
theorem lt_cons_of_head_lt {a : List Char} {x z : Nat} (hx : a.headD '0' = digit x) (hxz : x < z)
    (hz : z < 62) (cs : List Char) : a < digit z :: cs := by
  cases a with
  | nil => exact List.nil_lt_cons _ _
  | cons c a =>
    obtain rfl : c = digit x := hx
    exact cons_lt_of_lt ((digit_lt_digit (Nat.lt_trans hxz hz) hz).mpr hxz) _ _

/-- Behind a digit that a run shares with a fraction above it, its rest is below the fraction's. -/
theorem tail_lt_of_lt_cons {a ds : List Char} {d : Char} (hb : Fraction (d :: ds))
    (hd : a.headD '0' = d) (h : a < d :: ds) : a.tail < ds := by
  cases a with
  | nil =>
    have hds : ds ≠ [] := fun he => hb.last (by rw [he, ← hd]; rfl)
    obtain ⟨e, es, rfl⟩ := List.exists_cons_of_ne_nil hds
    exact List.nil_lt_cons e es
  | cons c a =>
    obtain rfl : c = d := hd
    rcases List.cons_lt_cons_iff.mp h with hlt | ⟨-, hlt⟩
    · exact absurd hlt (Char.lt_irrefl c)
    · exact hlt

/-- **There is a fraction between two runs of digits** of which the upper one is a fraction. -/
theorem midpoint_spec {a b : List Char} (ha : Digits a) (hb : Fraction b) (hlt : a < b) :
    ∃ f, midpoint a b = .ok f ∧ Fraction f ∧ a < f ∧ f < b := by
  induction b generalizing a with
  | nil => exact absurd hlt (List.not_lt_nil a)
  | cons d ds ih =>
    have hd := hb.digits d List.mem_cons_self
    unfold midpoint
    by_cases hsame : a.headD '0' = d
    · -- The digit is shared. If `a` is used up, the rest of `b` is above nothing.
      obtain ⟨f, hf, hfrac, hlow, hhigh⟩ :=
        ih ha.tail hb.of_cons (tail_lt_of_lt_cons hb hsame hlt)
      refine ⟨d :: f, ?_, hfrac.cons hd (ne_nil_of_lt hlow), lt_cons_of_tail_lt hsame hlow,
        cons_lt_cons hhigh⟩
      rw [if_pos hsame, hf]
      rfl
    · obtain ⟨x, y, hxy, hy, hx, rfl⟩ := head_lt ha hd hlt hsame
      have hx62 : x < 62 := Nat.lt_trans hxy hy
      rw [if_neg hsame, hx, (digit_spec x hx62).2.1, (digit_spec y hy).2.1]
      by_cases hroom : 1 < y - x
      · refine ⟨[digit ((x + y + 1) / 2)], if_pos hroom, .single (by omega) (by omega),
          lt_cons_of_head_lt hx (by omega) (by omega) _, cons_lt_of_lt ?_ _ _⟩
        exact (digit_lt_digit (by omega) hy).mpr (by omega)
      · by_cases hds : ds = []
        · -- Nothing comes after the digit of `b`, so there is room only after that of `a`.
          obtain ⟨rest, hrest, hfrac, hrlt⟩ := above_spec ha.tail
          refine ⟨digit x :: rest, ?_, hfrac.cons (digit_spec x hx62).1 (ne_nil_of_lt hrlt),
            lt_cons_of_tail_lt hx hrlt, cons_lt_of_lt ((digit_lt_digit hx62 hy).mpr hxy) _ _⟩
          show (if 1 < y - x then _ else if !ds.isEmpty then _ else _) = _
          rw [if_neg hroom, hds, hrest]
          rfl
        · obtain ⟨e, es, rfl⟩ := List.exists_cons_of_ne_nil hds
          refine ⟨[digit y], ?_, .single (by omega) hy, lt_cons_of_head_lt hx hxy hy _,
            cons_lt_cons (List.nil_lt_cons e es)⟩
          show (if 1 < y - x then _ else if !(e :: es).isEmpty then _ else _) = _
          rw [if_neg hroom]
          rfl

end OrderKey

end DeltaView
