import DeltaView.Proofs.OrderKey.Whole
import Mathlib.Data.Char
import Mathlib.Data.List.Lex

/-!
# Keys between keys

A well-formed key is an integer part with a fraction, and not the lowest integer part alone, which
leaves no room below it. Between two of them, or beyond one, there is always another.

* `Shaped`, `WellFormed`: the texts that are an integer part and a fraction, and the keys among
  them.
* `before_spec`, `after_spec`, `between_spec`: there is a text of the shape below, above and between
  others.
* **`keyBetween_strictly_between`**: a key is made for every pair of bounds in order, of base-62
  digits and strictly between them.
* `keyBetween_shaped`: a key that was made is one, also where a bound could have been refused.
-/

namespace DeltaView

namespace OrderKey

/-- An integer part and a fraction. -/
def Shaped (cs : List Char) : Prop := ∃ w f, cs = w ++ f ∧ IsWhole w ∧ Fraction f

/-- A key that can be built upon: a letter with at least as many base-62 digits as it demands, of
which those beyond do not end in `0`, and not the lowest integer part alone. -/
structure WellFormed (key : String) : Prop where
  shaped : Shaped key.toList
  ne_smallest : key.toList ≠ smallest

variable {a b cs w : List Char} {key : String}

theorem IsWhole.shaped (h : IsWhole w) : Shaped w :=
  ⟨w, [], (List.append_nil w).symm, h, .nil⟩

theorem Shaped.digits (h : Shaped cs) : Digits cs := by
  obtain ⟨w, f, rfl, hw, hf⟩ := h
  exact hw.digits.append hf.digits

/-- The integer part of a cut key, if the key is a run of digits. -/
theorem split_spec {f : List Char} (hcs : Digits cs) (h : split cs = .ok (w, f)) :
    cs = w ++ f ∧ IsWhole w := by
  obtain ⟨rfl, hw⟩ := split_eq_ok.mp h
  exact ⟨rfl, hw.isWhole (hcs.sublist (List.sublist_append_left w f))⟩

/-! ## Texts as bytes -/

theorem bytes_eq_toList (h : Digits key.toList) : bytes key = key.toList := by
  have hone : ∀ c ∈ key.toList, bytesOfChar c = [c] := fun c hc =>
    if_pos (ascii_of_isAlphanum (h c hc))
  rw [bytes, List.flatMap_congr hone, List.flatMap_singleton']

theorem bytes_ofList (h : Digits cs) : bytes (String.ofList cs) = cs := by
  rw [bytes_eq_toList (by rwa [String.toList_ofList]), String.toList_ofList]

/-! ## Accepted keys -/

/-- **The keys are the runs of digits that are accepted.** -/
theorem wellFormed_iff : WellFormed key ↔ Digits key.toList ∧ validate key = .ok () := by
  constructor
  · rintro ⟨hshaped, hne⟩
    have hdigits := hshaped.digits
    obtain ⟨w, f, hkey, hw, hf⟩ := hshaped
    refine ⟨hdigits, ?_⟩
    rw [validate, bytes_eq_toList hdigits, if_neg hne, hkey, hw.split_append]
    exact if_neg hf.last
  · rintro ⟨hdigits, hvalid⟩
    rw [validate, bytes_eq_toList hdigits] at hvalid
    split_ifs at hvalid with hne
    obtain ⟨⟨w, f⟩, hsplit, hvalid⟩ := bind_eq_ok.mp hvalid
    obtain ⟨hkey, hw⟩ := split_spec hdigits hsplit
    change (if f.getLast? = some '0' then _ else _) = _ at hvalid
    split_ifs at hvalid with hlast
    exact ⟨⟨w, f, hkey, hw, hdigits.sublist (hkey ▸ List.sublist_append_right w f), hlast⟩, hne⟩

instance WellFormed.decidable : DecidablePred WellFormed := fun key =>
  decidable_of_iff (Digits key.toList ∧ (validate key).isOk = true) <| by
    rw [wellFormed_iff]
    cases validate key <;> simp [Except.isOk, Except.toBool]

/-! ## Room for another key -/

theorem lt_of_append_lt (h : w ++ a < w ++ b) : a < b := by
  induction w with
  | nil => exact h
  | cons c w ih =>
    rcases List.cons_lt_cons_iff.mp h with hlt | ⟨-, hrest⟩
    · exact absurd hlt (Char.lt_irrefl c)
    · exact ih hrest

/-- **There is room below every text of the shape** but the lowest integer part. -/
theorem before_spec (hb : Shaped b) (hne : b ≠ smallest) :
    ∃ k, before b = .ok k ∧ Shaped k ∧ k < b := by
  obtain ⟨w, f, rfl, hw, hf⟩ := hb
  rw [before, hw.split_append]
  show ∃ k, (if w = smallest then _ else if !f.isEmpty then _ else _) = Except.ok k ∧ _
  by_cases hsmall : w = smallest
  · have hpos : [] < f := by
      cases f with
      | nil => exact absurd hsmall (by simpa using hne)
      | cons c f => exact List.nil_lt_cons c f
    obtain ⟨m, hm, hfrac, -, hhigh⟩ := midpoint_spec .nil hf hpos
    refine ⟨w ++ m, ?_, ⟨w, m, rfl, hw, hfrac⟩, List.append_left_lt hhigh⟩
    rw [if_pos hsmall, hm]
    rfl
  · rw [if_neg hsmall]
    cases f with
    | nil =>
      obtain ⟨v, hv, hvw, hlt⟩ := previous?_spec hw hsmall
      refine ⟨v, ?_, hvw.shaped, by rwa [List.append_nil]⟩
      rw [hv]
      rfl
    | cons c f =>
      refine ⟨w, rfl, hw.shaped, ?_⟩
      have hlt : w ++ [] < w ++ c :: f := List.append_left_lt (List.nil_lt_cons c f)
      rwa [List.append_nil] at hlt

/-- **There is room above every text of the shape.** -/
theorem after_spec (ha : Shaped a) : ∃ k, after a = .ok k ∧ Shaped k ∧ a < k := by
  obtain ⟨w, f, rfl, hw, hf⟩ := ha
  rw [after, hw.split_append]
  obtain ⟨v, hv, hvw, hlt⟩ | ⟨hv, -⟩ := next?_spec hw
  · refine ⟨v, ?_, hvw.shaped, by simpa using hw.append_lt hvw hlt f []⟩
    show next? w >>= _ = _
    rw [hv]
    rfl
  · obtain ⟨m, hm, hfrac, hfm⟩ := above_spec hf.digits
    refine ⟨w ++ m, ?_, ⟨w, m, rfl, hw, hfrac⟩, List.append_left_lt hfm⟩
    show next? w >>= _ = _
    rw [hv]
    show above f >>= _ = _
    rw [hm]
    rfl

/-- **There is room between two texts of the shape.** -/
theorem between_spec (ha : Shaped a) (hb : Shaped b) (hlt : a < b) :
    ∃ k, between a b = .ok k ∧ Shaped k ∧ a < k ∧ k < b := by
  obtain ⟨u, f, rfl, hu, hf⟩ := ha
  obtain ⟨v, g, rfl, hv, hg⟩ := hb
  rw [between, hu.split_append, hv.split_append]
  show ∃ k, (if u = v then _ else _) = Except.ok k ∧ _
  by_cases huv : u = v
  · subst huv
    obtain ⟨m, hm, hfrac, hlow, hhigh⟩ := midpoint_spec hf.digits hg (lt_of_append_lt hlt)
    refine ⟨u ++ m, ?_, ⟨u, m, rfl, hu, hfrac⟩, List.append_left_lt hlow,
      List.append_left_lt hhigh⟩
    rw [if_pos rfl, hm]
    rfl
  · have hwhole : u < v := (lt_or_gt_of_ne huv).resolve_right fun h =>
      lt_asymm hlt (hv.append_lt hu h g f)
    rw [if_neg huv]
    obtain ⟨n, hn, hnw, hun⟩ | ⟨-, hnone⟩ := next?_spec hu
    · rw [hn]
      show ∃ k, (if n < v ++ g then _ else _) = Except.ok k ∧ _
      by_cases hnb : n < v ++ g
      · exact ⟨n, if_pos hnb, hnw.shaped, by simpa using hu.append_lt hnw hun f [], hnb⟩
      · -- The integer part above is taken, so the key stays with that of the lower bound.
        obtain ⟨m, hm, hfrac, hfm⟩ := above_spec hf.digits
        refine ⟨u ++ m, ?_, ⟨u, m, rfl, hu, hfrac⟩, List.append_left_lt hfm,
          hu.append_lt hv hwhole m g⟩
        rw [if_neg hnb, hm]
        rfl
    · exact absurd hwhole (hnone v hv)

/-! ## Keys between keys -/

section

variable {low high : Option String}

theorem bytesBetween_below (y : String) :
    bytesBetween none (some y) = validate y >>= fun _ => before (bytes y) := rfl

theorem bytesBetween_above (x : String) :
    bytesBetween (some x) none = validate x >>= fun _ => after (bytes x) := rfl

theorem bytesBetween_inside (x y : String) :
    bytesBetween (some x) (some y) = validate x >>= fun _ => validate y >>= fun _ =>
      if bytes x < bytes y then between (bytes x) (bytes y) else .error (.order x y) := rfl

/-- **A text of the shape is made strictly between two keys.** -/
theorem bytesBetween_spec (hlow : ∀ x ∈ low, WellFormed x) (hhigh : ∀ y ∈ high, WellFormed y)
    (hlt : ∀ x ∈ low, ∀ y ∈ high, bytes x < bytes y) :
    ∃ k, bytesBetween low high = .ok k ∧ Shaped k ∧ (∀ x ∈ low, bytes x < k) ∧
      ∀ y ∈ high, k < bytes y := by
  have hbytes : ∀ x, WellFormed x → bytes x = x.toList := fun x hx =>
    bytes_eq_toList hx.shaped.digits
  cases low with
  | none =>
    cases high with
    | none =>
      have hfirst : WellFormed first := by decide +kernel
      exact ⟨first.toList, rfl, hfirst.shaped, by simp, by simp⟩
    | some y =>
      have hy := hhigh y rfl
      obtain ⟨k, hk, hshaped, hky⟩ := before_spec hy.shaped hy.ne_smallest
      refine ⟨k, ?_, hshaped, by simp, by simpa [hbytes y hy] using hky⟩
      rw [bytesBetween_below, (wellFormed_iff.mp hy).2, hbytes y hy]
      exact hk
  | some x =>
    have hx := hlow x rfl
    cases high with
    | none =>
      obtain ⟨k, hk, hshaped, hxk⟩ := after_spec hx.shaped
      refine ⟨k, ?_, hshaped, by simpa [hbytes x hx] using hxk, by simp⟩
      rw [bytesBetween_above, (wellFormed_iff.mp hx).2, hbytes x hx]
      exact hk
    | some y =>
      have hy := hhigh y rfl
      have hxy : bytes x < bytes y := hlt x rfl y rfl
      rw [hbytes x hx, hbytes y hy] at hxy
      obtain ⟨k, hk, hshaped, hxk, hky⟩ := between_spec hx.shaped hy.shaped hxy
      refine ⟨k, ?_, hshaped, by simpa [hbytes x hx] using hxk, by simpa [hbytes y hy] using hky⟩
      rw [bytesBetween_inside, (wellFormed_iff.mp hx).2, (wellFormed_iff.mp hy).2, hbytes x hx,
        hbytes y hy]
      exact (if_pos hxy).trans hk

/-- **A key is made strictly between any two in order**, an absent one standing for an open end. -/
theorem keyBetween_strictly_between (low high : Option String) (hlow : ∀ x ∈ low, WellFormed x)
    (hhigh : ∀ y ∈ high, WellFormed y) (hlt : ∀ x ∈ low, ∀ y ∈ high, bytes x < bytes y) :
    ∃ key, keyBetween low high = .ok key ∧ (∀ c ∈ key.toList, c.isAlphanum = true) ∧
      (∀ x ∈ low, bytes x < bytes key) ∧ ∀ y ∈ high, bytes key < bytes y := by
  obtain ⟨k, hk, hshaped, hbelow, habove⟩ := bytesBetween_spec hlow hhigh hlt
  refine ⟨String.ofList k, map_eq_ok.mpr ⟨k, hk, rfl⟩, ?_, ?_⟩
  · rw [String.toList_ofList]
    exact hshaped.digits
  · rw [bytes_ofList hshaped.digits]
    exact ⟨hbelow, habove⟩

/-- The next integer part after the last negative one is the first that is not negative, and here it
is just below the upper bound. -/
theorem keyBetween_strictly_between_across_heads :
    bytes "Zz5" < bytes "a00V" ∧ ∃ key, keyBetween (some "Zz5") (some "a00V") = .ok key ∧
      (∀ c ∈ key.toList, c.isAlphanum = true) ∧ bytes "Zz5" < bytes key ∧
      bytes key < bytes "a00V" := by
  have hlt : bytes "Zz5" < bytes "a00V" := by decide +kernel
  obtain ⟨key, hkey, hdigits, hbelow, habove⟩ :=
    keyBetween_strictly_between (some "Zz5") (some "a00V") (by rintro _ ⟨⟩; decide +kernel)
      (by rintro _ ⟨⟩; decide +kernel) (by rintro _ ⟨⟩ _ ⟨⟩; exact hlt)
  exact ⟨hlt, key, hkey, hdigits, hbelow _ rfl, habove _ rfl⟩

/-- The bounds of a key that was made were accepted. -/
theorem validate_of_keyBetween (h : keyBetween low high = .ok key) :
    (∀ x ∈ low, validate x = .ok ()) ∧ ∀ y ∈ high, validate y = .ok () := by
  obtain ⟨k, hk, -⟩ := map_eq_ok.mp h
  cases low with
  | none =>
    cases high with
    | none => exact ⟨by simp, by simp⟩
    | some y =>
      rw [bytesBetween_below, bind_eq_ok] at hk
      obtain ⟨_, hy, -⟩ := hk
      exact ⟨by simp, by rintro _ ⟨⟩; exact hy⟩
  | some x =>
    cases high with
    | none =>
      rw [bytesBetween_above, bind_eq_ok] at hk
      obtain ⟨_, hx, -⟩ := hk
      exact ⟨by rintro _ ⟨⟩; exact hx, by simp⟩
    | some y =>
      rw [bytesBetween_inside, bind_eq_ok] at hk
      obtain ⟨_, hx, hrest⟩ := hk
      obtain ⟨_, hy, -⟩ := bind_eq_ok.mp hrest
      exact ⟨by rintro _ ⟨⟩; exact hx, by rintro _ ⟨⟩; exact hy⟩

/-- **A key that was made between texts of the shape has the shape**, although it need not be one
that can be built upon. -/
theorem keyBetween_shaped (hlow : ∀ x ∈ low, Shaped x.toList) (hhigh : ∀ y ∈ high, Shaped y.toList)
    (hlt : ∀ x ∈ low, ∀ y ∈ high, bytes x < bytes y) (h : keyBetween low high = .ok key) :
    Shaped key.toList ∧ (∀ x ∈ low, bytes x < bytes key) ∧ ∀ y ∈ high, bytes key < bytes y := by
  obtain ⟨hx, hy⟩ := validate_of_keyBetween h
  obtain ⟨k, hk, hshaped, hbelow, habove⟩ := bytesBetween_spec
    (fun x hm => wellFormed_iff.mpr ⟨(hlow x hm).digits, hx x hm⟩)
    (fun y hm => wellFormed_iff.mpr ⟨(hhigh y hm).digits, hy y hm⟩) hlt
  obtain ⟨k', hk', rfl⟩ := map_eq_ok.mp h
  obtain rfl : k = k' := Except.ok.inj (hk.symm.trans hk')
  rw [bytes_ofList hshaped.digits, String.toList_ofList]
  exact ⟨hshaped, hbelow, habove⟩

end

end OrderKey

end DeltaView
