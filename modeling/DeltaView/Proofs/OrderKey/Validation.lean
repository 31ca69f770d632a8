import DeltaView.Proofs.OrderKey.Reuse

/-!
# Keys that are accepted

Accepting a key looks at its head letter, at its length and at its last byte. It does not look at
the bytes in between, of which digits are asked for only where a key made from it needs them. So it
accepts the well-formed keys and, beside them, texts that have other bytes in the place of digits.

* `Accepted`: the format of a key with any bytes in the place of digits.
* `validate_eq_ok`, `wellFormed_iff_accepted`: what is accepted, and what is well-formed of that.
* `lt_of_keyBetween`: no key is made between bounds that are not in order.
* **`refuses_off_format`**: bounds of digits are refused exactly where one is not of the format or
  they are not in order, and other bounds at least where one is not accepted.
-/

namespace DeltaView

namespace OrderKey

variable {low high : Option String} {key : String} {cs : List Char}

/-! ## Validation -/

/-- What an accepted key looks like: a head letter, as many bytes as it demands digits and more
bytes of which the last is not `0`, and not the lowest integer part alone. -/
structure Accepted (cs : List Char) : Prop where
  framed : ∃ w f, cs = w ++ f ∧ IsFrame w ∧ f.getLast? ≠ some '0'
  ne_smallest : cs ≠ smallest

/-- **What is accepted.** -/
theorem validate_eq_ok : validate key = .ok () ↔ Accepted (bytes key) := by
  unfold validate
  constructor
  · intro h
    split_ifs at h with hne
    obtain ⟨⟨w, f⟩, hsplit, h⟩ := bind_eq_ok.mp h
    obtain ⟨hkey, hw⟩ := split_eq_ok.mp hsplit
    change (if f.getLast? = some '0' then _ else _) = _ at h
    split_ifs at h with hlast
    exact ⟨⟨w, f, hkey, hw, hlast⟩, hne⟩
  · rintro ⟨⟨w, f, hkey, hw, hlast⟩, hne⟩
    rw [if_neg hne]
    exact bind_eq_ok.mpr ⟨(w, f), split_eq_ok.mpr ⟨hkey, hw⟩, if_neg hlast⟩

/-- **The well-formed keys are the runs of digits among what is accepted.** -/
theorem wellFormed_iff_accepted :
    WellFormed key ↔ Accepted (bytes key) ∧ Digits key.toList := by
  rw [wellFormed_iff, validate_eq_ok, and_comm]

/-! ## Bounds -/

/-- No key is made between bounds that are not in order. -/
theorem lt_of_keyBetween (h : keyBetween low high = .ok key) :
    ∀ x ∈ low, ∀ y ∈ high, bytes x < bytes y := by
  rintro x rfl y rfl
  obtain ⟨k, hk, -⟩ := map_eq_ok.mp h
  rw [bytesBetween_inside] at hk
  obtain ⟨_, -, hk⟩ := bind_eq_ok.mp hk
  obtain ⟨_, -, hk⟩ := bind_eq_ok.mp hk
  by_contra hlt
  rw [if_neg hlt] at hk
  cases hk

/-- **Bounds are refused** if one of them is or if they are not in order. -/
theorem keyBetween_refused (h : (∃ x ∈ low, validate x ≠ .ok ()) ∨
    (∃ y ∈ high, validate y ≠ .ok ()) ∨ ∃ x ∈ low, ∃ y ∈ high, bytes y ≤ bytes x) :
    ∃ f, keyBetween low high = .error f := by
  cases hkey : keyBetween low high with
  | error f => exact ⟨f, rfl⟩
  | ok key =>
    obtain ⟨hlow, hhigh⟩ := validate_of_keyBetween hkey
    obtain ⟨x, hx, hne⟩ | ⟨y, hy, hne⟩ | ⟨x, hx, y, hy, hle⟩ := h
    · exact absurd (hlow x hx) hne
    · exact absurd (hhigh y hy) hne
    · exact absurd (lt_of_keyBetween hkey x hx y hy) (not_lt_of_ge hle)

/-- **Keys off the format are refused, as far as they are made of digits.** What is accepted is the
format with any bytes in the place of digits, and the well-formed keys are what is made of digits
among that. Bounds are refused where one of them is not accepted or where they are not in order;
bounds of digits are refused exactly where one of them is not well-formed or they are not in
order. -/
theorem refuses_off_format (low high : Option String) :
    (∀ key, validate key = .ok () ↔ Accepted (bytes key)) ∧
      (∀ key, WellFormed key ↔ Accepted (bytes key) ∧ Digits key.toList) ∧
      ((∃ x ∈ low, validate x ≠ .ok ()) ∨ (∃ y ∈ high, validate y ≠ .ok ()) ∨
          (∃ x ∈ low, ∃ y ∈ high, bytes y ≤ bytes x) →
        ∃ f, keyBetween low high = .error f) ∧
      ((∀ x ∈ low, Digits x.toList) → (∀ y ∈ high, Digits y.toList) →
        ((∃ f, keyBetween low high = .error f) ↔
          (∃ x ∈ low, ¬ WellFormed x) ∨ (∃ y ∈ high, ¬ WellFormed y) ∨
            ∃ x ∈ low, ∃ y ∈ high, bytes y ≤ bytes x)) := by
  refine ⟨fun key => validate_eq_ok, fun key => wellFormed_iff_accepted, keyBetween_refused,
    fun hlow hhigh => ⟨?_, fun h => keyBetween_refused ?_⟩⟩
  · rintro ⟨f, hf⟩
    by_contra hall
    push Not at hall
    obtain ⟨key, hkey, -⟩ := keyBetween_spec hall.1 hall.2.1 hall.2.2
    cases hkey.symm.trans hf
  · have hrefused : ∀ x : String, Digits x.toList → ¬ WellFormed x → validate x ≠ .ok () :=
      fun x hx hne hok => hne (wellFormed_iff.mpr ⟨hx, hok⟩)
    obtain ⟨x, hx, hne⟩ | ⟨y, hy, hne⟩ | hle := h
    · exact Or.inl ⟨x, hx, hrefused x (hlow x hx) hne⟩
    · exact Or.inr (Or.inl ⟨y, hy, hrefused y (hhigh y hy) hne⟩)
    · exact Or.inr (Or.inr hle)

/-- A bound with a fraction that ends in `0` is refused, although it is in order. -/
theorem refuses_off_format_of_trailing_zero :
    Digits "a1".toList ∧ Digits "a1V0".toList ∧ bytes "a1" < bytes "a1V0" ∧
      ∃ f, keyBetween (some "a1") (some "a1V0") = .error f := by
  have hlow : Digits "a1".toList := by decide
  have hhigh : Digits "a1V0".toList := by decide
  refine ⟨hlow, hhigh, by decide +kernel, ?_⟩
  refine ((refuses_off_format (some "a1") (some "a1V0")).2.2.2 (by rintro _ ⟨⟩; exact hlow)
    (by rintro _ ⟨⟩; exact hhigh)).mpr (Or.inr (Or.inl ⟨_, rfl, ?_⟩))
  decide +kernel

/-- Texts with other bytes in the place of digits are accepted, and a key is made from one. -/
theorem refuses_off_format_fails :
    ¬ WellFormed "a0!" ∧ validate "a0!" = .ok () ∧
      keyBetween (some "a0!") (some "a2") = .ok "a1" ∧
      ¬ WellFormed "aé" ∧ validate "aé" = .ok () := by
  decide +kernel

end OrderKey

end DeltaView
