import DeltaView.Number.Numeral
import Mathlib.Algebra.Group.Int.Defs
import Mathlib.Data.List.Basic
import Mathlib.Data.List.TakeWhile

/-!
# Numerals and the texts they are read from

* `read?_digitsOfInt`, `toInt?_digitsOfInt`: the text of a whole number is a numeral, and denotes
  that number as far as 64 bits hold it.
* `read?_eq_some`: which texts are numerals, and of which characters they are made.
* **`not_isWhole_of_text`**: the text of a decimal has a point or an exponent, so it never is that of
  a whole number.
-/

namespace DeltaView

/-! ## Digits -/

theorem isDigit_of_mem_digitsOfNat {n : Nat} {c : Char} (h : c ∈ digitsOfNat n) : c.isDigit :=
  Nat.isDigit_of_mem_toDigits (by decide) (by decide) h

theorem digitsOfNat_ne_nil (n : Nat) : digitsOfNat n ≠ [] := Nat.toDigits_ne_nil

theorem natOfDigits_digitsOfNat (n : Nat) : natOfDigits (digitsOfNat n) = n :=
  Nat.ofDigitChars_toDigits (by decide) (by decide)

/-- Only zero is written with a zero in front. -/
theorem eq_zero_of_head?_digitsOfNat {n : Nat} (h : (digitsOfNat n).head? = some '0') : n = 0 := by
  induction n using Nat.strongRecOn with
  | ind n ih =>
    unfold digitsOfNat at h
    rw [Nat.toDigits_eq_if (by decide)] at h
    split at h
    · rename_i hn
      rw [List.head?_cons, Option.some.injEq] at h
      have hzero : ∀ m < 10, Nat.digitChar m = '0' → m = 0 := by decide
      exact hzero n hn h
    · rename_i hn
      rw [List.head?_append_of_ne_nil _ Nat.toDigits_ne_nil] at h
      have := ih (n / 10) (by omega) h
      omega

namespace Numeral

/-! ## Texts of whole numbers -/

theorem takeDigits?_self {ds : List Char} (hne : ds ≠ []) (h : ∀ c ∈ ds, c.isDigit) :
    takeDigits? ds = some (ds, []) := by
  unfold takeDigits?
  rw [List.takeWhile_eq_self_iff.mpr h, List.dropWhile_eq_nil_iff.mpr h]
  cases ds with
  | nil => exact absurd rfl hne
  | cons c ds => rfl

theorem takeWhole?_digitsOfNat (n : Nat) :
    takeWhole? (digitsOfNat n) = some (digitsOfNat n, []) := by
  unfold takeWhole?
  rw [takeDigits?_self (digitsOfNat_ne_nil n) fun _ => isDigit_of_mem_digitsOfNat]
  refine if_neg fun h => ?_
  rw [Bool.and_eq_true, decide_eq_true_iff, decide_eq_true_iff] at h
  obtain rfl := eq_zero_of_head?_digitsOfNat h.1
  exact absurd h.2 (by decide)

theorem readUnsigned?_digitsOfNat (isNegative : Bool) (n : Nat) :
    readUnsigned? isNegative (digitsOfNat n) = some ⟨isNegative, digitsOfNat n, [], none⟩ := by
  unfold readUnsigned?
  rw [takeWhole?_digitsOfNat]
  rfl

/-- The text of a whole number is a numeral. -/
theorem read?_digitsOfInt (n : Int) :
    read? (digitsOfInt n) = some ⟨n < 0, digitsOfNat n.natAbs, [], none⟩ := by
  unfold digitsOfInt
  split
  · rename_i h
    rw [decide_eq_true h]
    exact readUnsigned?_digitsOfNat true n.natAbs
  · rename_i h
    rw [decide_eq_false h]
    have hsign : ∀ s, digitsOfNat n.natAbs ≠ '-' :: s := fun s hs =>
      absurd (isDigit_of_mem_digitsOfNat (hs ▸ List.mem_cons_self)) (by decide)
    unfold read?
    split
    · rename_i s hs
      exact absurd hs (hsign s)
    · exact readUnsigned?_digitsOfNat false n.natAbs

/-- **The text of a whole number denotes it**, as far as 64 bits hold it. -/
theorem toInt?_digitsOfInt {n : Int} (hmin : -2 ^ 63 ≤ n) (hend : n < 2 ^ 64) :
    (⟨n < 0, digitsOfNat n.natAbs, [], none⟩ : Numeral).toInt? = some n := by
  unfold toInt?
  simp only [natOfDigits_digitsOfNat, isWhole, List.isEmpty_nil, Option.isNone_none, Bool.and_self,
    Bool.not_true, Bool.false_eq_true, if_false, decide_eq_true_eq]
  unfold significandEnd
  by_cases h : n < 0
  · rw [if_pos h, if_pos (by simp; omega)]
    exact congrArg some (by omega)
  · rw [if_neg h, if_pos (by omega)]
    exact congrArg some (by omega)

/-! ## Numerals that were read -/

/-- May a character stand in a numeral? -/
def IsPart (c : Char) : Prop := c.isDigit ∨ c ∈ ['.', 'e', 'E', '+', '-']

variable {s rest ds : List Char} {n : Numeral}

theorem takeDigits?_eq_some (h : takeDigits? s = some (ds, rest)) :
    s = ds ++ rest ∧ ds ≠ [] ∧ ∀ c ∈ ds, c.isDigit := by
  unfold takeDigits? at h
  simp only [Option.ite_none_left_eq_some, Option.some.injEq, Prod.mk.injEq] at h
  obtain ⟨hne, rfl, rfl⟩ := h
  refine ⟨List.takeWhile_append_dropWhile.symm, fun hnil => hne ?_, fun c => List.mem_takeWhile_imp⟩
  rw [hnil]
  rfl

/-- What digits, and the marks in front of them, leave of a text. -/
theorem isPart_of_takeDigits? {mark : List Char} (hmark : ∀ c ∈ mark, IsPart c)
    (h : takeDigits? s = some (ds, rest)) {c : Char} (hc : c ∈ mark ++ s) : c ∈ rest ∨ IsPart c := by
  obtain ⟨rfl, -, hds⟩ := takeDigits?_eq_some h
  rcases List.mem_append.mp hc with hc | hc
  · exact Or.inr (hmark c hc)
  · exact (List.mem_append.mp hc).symm.imp_right fun hc => Or.inl (hds c hc)

theorem takeWhole?_eq_some (h : takeWhole? s = some (ds, rest)) :
    s = ds ++ rest ∧ ∀ c ∈ ds, c.isDigit := by
  unfold takeWhole? at h
  obtain ⟨⟨ds', rest'⟩, htake, h⟩ := Option.bind_eq_some_iff.mp h
  obtain ⟨-, h⟩ := Option.ite_none_left_eq_some.mp h
  obtain ⟨rfl, rfl⟩ := Prod.mk.inj (Option.some.inj h)
  exact ⟨(takeDigits?_eq_some htake).1, (takeDigits?_eq_some htake).2.2⟩

/-- Where there is no fraction, nothing was taken. -/
theorem takeFraction?_eq_some (h : takeFraction? s = some (ds, rest)) :
    (∀ c ∈ s, c ∈ rest ∨ IsPart c) ∧ (ds = [] → s = rest) := by
  unfold takeFraction? at h
  split at h
  · rename_i s
    have hpoint : ∀ c ∈ ['.'], IsPart c := List.forall_mem_singleton.mpr (Or.inr (by decide))
    exact ⟨fun c => isPart_of_takeDigits? hpoint h,
      fun hnil => absurd hnil (takeDigits?_eq_some h).2.1⟩
  · obtain ⟨rfl, rfl⟩ := Prod.mk.inj (Option.some.inj h)
    exact ⟨fun c hc => Or.inl hc, fun _ => rfl⟩

/-- Where there is no exponent, nothing was taken. -/
theorem takeExponent?_eq_some {exponent : Option Int} (h : takeExponent? s = some (exponent, rest)) :
    (∀ c ∈ s, c ∈ rest ∨ IsPart c) ∧ (exponent = none → s = rest) := by
  unfold takeExponent? at h
  split at h
  · split at h
    · rename_i c s he
      have hc : IsPart c := by
        rw [Bool.or_eq_true, decide_eq_true_iff, decide_eq_true_iff] at he
        rcases he with rfl | rfl <;> exact Or.inr (by decide)
      have hsign : ∀ d ∈ ['+', '-'], ∀ c' ∈ [c, d], IsPart c' := by
        intro d hd c' hc'
        rcases List.mem_pair.mp hc' with rfl | rfl
        · exact hc
        · exact Or.inr (List.mem_cons_of_mem _ (List.mem_cons_of_mem _ (List.mem_cons_of_mem _ hd)))
      split at h <;> obtain ⟨⟨ds, rest'⟩, htake, h⟩ := Option.bind_eq_some_iff.mp h <;>
        obtain ⟨rfl, rfl⟩ := Prod.mk.inj (Option.some.inj h) <;>
        refine ⟨fun c' => ?_, fun hnone => absurd hnone (Option.some_ne_none _)⟩
      · exact isPart_of_takeDigits? (hsign '-' (by decide)) htake
      · exact isPart_of_takeDigits? (hsign '+' (by decide)) htake
      · exact isPart_of_takeDigits? (List.forall_mem_singleton.mpr hc) htake
    · obtain ⟨rfl, rfl⟩ := Prod.mk.inj (Option.some.inj h)
      exact ⟨fun c hc => Or.inl hc, fun _ => rfl⟩
  · obtain ⟨rfl, rfl⟩ := Prod.mk.inj (Option.some.inj h)
    exact ⟨fun c hc => Or.inl hc, fun _ => rfl⟩

theorem readUnsigned?_eq_some {isNegative : Bool} (h : readUnsigned? isNegative s = some n) :
    (∀ c ∈ s, IsPart c) ∧ (n.isWhole → ∀ c ∈ s, c.isDigit) := by
  unfold readUnsigned? at h
  obtain ⟨⟨whole, s₁⟩, hwhole, h⟩ := Option.bind_eq_some_iff.mp h
  obtain ⟨⟨fraction, s₂⟩, hfraction, h⟩ := Option.bind_eq_some_iff.mp h
  obtain ⟨⟨exponent, s₃⟩, hexponent, h⟩ := Option.bind_eq_some_iff.mp h
  obtain ⟨hend, h⟩ := Option.ite_none_right_eq_some.mp h
  obtain rfl := List.isEmpty_iff.mp hend
  obtain rfl := Option.some.inj h
  obtain ⟨rfl, hds⟩ := takeWhole?_eq_some hwhole
  obtain ⟨hpart, hnofraction⟩ := takeFraction?_eq_some hfraction
  obtain ⟨hpart', hnoexponent⟩ := takeExponent?_eq_some hexponent
  constructor
  · intro c hc
    rcases List.mem_append.mp hc with hc | hc
    · exact Or.inl (hds c hc)
    · rcases hpart c hc with hc | hc
      · exact (hpart' c hc).resolve_left List.not_mem_nil
      · exact hc
  · intro hisWhole
    obtain ⟨hf, he⟩ := Bool.and_eq_true_iff.mp hisWhole
    rw [hnofraction (List.isEmpty_iff.mp hf), hnoexponent (Option.isNone_iff_eq_none.mp he),
      List.append_nil]
    exact hds

/-- **Which characters make a numeral**: digits and marks, and a whole one digits and a sign. -/
theorem read?_eq_some (h : read? s = some n) :
    (∀ c ∈ s, IsPart c) ∧ (n.isWhole → ∀ c ∈ s, c = '-' ∨ c.isDigit) := by
  unfold read? at h
  split at h
  · obtain ⟨hpart, hwhole⟩ := readUnsigned?_eq_some h
    exact ⟨List.forall_mem_cons.mpr ⟨Or.inr (by decide), hpart⟩, fun hw =>
      List.forall_mem_cons.mpr ⟨Or.inl rfl, fun c hc => Or.inr (hwhole hw c hc)⟩⟩
  · obtain ⟨hpart, hwhole⟩ := readUnsigned?_eq_some h
    exact ⟨hpart, fun hw c hc => Or.inr (hwhole hw c hc)⟩

end Numeral

/-! ## Texts of decimals -/

namespace Decimal

/-- Digits are laid out with a point or an exponent. -/
theorem mem_layout {digits : List Char} (hne : digits ≠ []) (exponent : Int) :
    '.' ∈ layout digits exponent ∨ 'e' ∈ layout digits exponent := by
  unfold layout
  simp only
  split
  · refine Or.inl ?_
    split
    · exact List.mem_append_right _ List.mem_cons_self
    · split
      · exact List.mem_append_right _ List.mem_cons_self
      · exact List.mem_append_left _ (List.mem_cons_of_mem _ List.mem_cons_self)
  · split
    · exact absurd rfl hne
    · exact Or.inr (List.mem_cons_of_mem _ List.mem_cons_self)
    · exact Or.inl (List.mem_append_left _ (List.mem_cons_of_mem _ List.mem_cons_self))

theorem mem_text (d : Decimal) : '.' ∈ d.text ∨ 'e' ∈ d.text := by
  have hsign : ∀ {body : List Char}, '.' ∈ body ∨ 'e' ∈ body →
      '.' ∈ (if d.isNegative then '-' :: body else body) ∨
        'e' ∈ (if d.isNegative then '-' :: body else body) := by
    intro body h
    split
    · exact h.imp (List.mem_cons_of_mem _) (List.mem_cons_of_mem _)
    · exact h
  unfold text
  refine hsign ?_
  split
  · exact Or.inl (by decide)
  · exact mem_layout (digitsOfNat_ne_nil _) _

/-- **The text of a decimal is never that of a whole number.** -/
theorem not_isWhole_of_text {d : Decimal} {n : Numeral} (h : Numeral.read? d.text = some n) :
    n.isWhole = false := by
  rw [Bool.eq_false_iff]
  intro hw
  have hchars := (Numeral.read?_eq_some h).2 hw
  rcases d.mem_text with hmem | hmem <;> exact absurd (hchars _ hmem) (by decide)

end Decimal

end DeltaView
