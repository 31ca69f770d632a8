import DeltaView.Proofs.OrderKey.Reuse

/-!
# Several keys at once

Several keys are made one after the other, each bound on one side by the key made before it, or
from the middle on both sides. A key that is made above another one, or with no bound at all, can be
built upon again, so that there is no end to them; counting down comes to one in the end, where the
lowest integer part is reached.

* `Fills`: ascending keys inside of two bounds. `Fills.around`: such keys on both sides of a key.
* `keysAfter_spec`, `keysInside_spec`: above a key and between two keys any number of keys is made.
* `keysBefore_spec`, `keysBefore_fault`: keys that are made below a key descend, and only below the
  lowest integer part there is none.
* **`keysBetween_ascending`**: as many keys as were asked for, in ascending order and between the
  bounds.
-/

namespace DeltaView

namespace OrderKey

variable {low high : Option String} {key : String} {keys lower upper : List String}

/-! ## Ascending keys -/

/-- Ascending keys inside of two bounds, an absent one standing for an open end. -/
structure Fills (low high : Option String) (keys : List String) : Prop where
  shaped : ∀ k ∈ keys, Shaped k.toList
  ascending : keys.Pairwise fun j k => bytes j < bytes k
  inside : ∀ k ∈ keys, (∀ x ∈ low, bytes x < bytes k) ∧ ∀ y ∈ high, bytes k < bytes y

namespace Fills

theorem nil (low high : Option String) : Fills low high [] :=
  ⟨List.forall_mem_nil _, .nil, List.forall_mem_nil _⟩

/-- **Keys on both sides of a key**, which is inside of the bounds itself. -/
theorem around (hkey : Shaped key.toList) (hlower : Fills low (some key) lower)
    (hupper : Fills (some key) high upper) (hlow : ∀ x ∈ low, bytes x < bytes key)
    (hhigh : ∀ y ∈ high, bytes key < bytes y) : Fills low high (lower ++ key :: upper) := by
  have hbefore : ∀ j ∈ lower, bytes j < bytes key := fun j hj => (hlower.inside j hj).2 key rfl
  have hafter : ∀ k ∈ upper, bytes key < bytes k := fun k hk => (hupper.inside k hk).1 key rfl
  refine ⟨?_, ?_, ?_⟩
  · exact List.forall_mem_append.mpr ⟨hlower.shaped, List.forall_mem_cons.mpr ⟨hkey, hupper.shaped⟩⟩
  · refine List.pairwise_append.mpr ⟨hlower.ascending,
      List.pairwise_cons.mpr ⟨hafter, hupper.ascending⟩, fun j hj => List.forall_mem_cons.mpr ?_⟩
    exact ⟨hbefore j hj, fun k hk => lt_trans (hbefore j hj) (hafter k hk)⟩
  · intro k hk
    rcases List.mem_append.mp hk with hk | hk
    · exact ⟨(hlower.inside k hk).1, fun y hy => lt_trans (hbefore k hk) (hhigh y hy)⟩
    · rcases List.mem_cons.mp hk with rfl | hk
      · exact ⟨hlow, hhigh⟩
      · exact ⟨fun x hx => lt_trans (hlow x hx) (hafter k hk), (hupper.inside k hk).2⟩

end Fills

/-! ## Any number of keys -/

/-- A key that is made above another one, or without a bound, can be built upon. -/
theorem keyBetween_wellFormed (hlow : ∀ x ∈ low, WellFormed x) (hhigh : ∀ y ∈ high, WellFormed y)
    (hlt : ∀ x ∈ low, ∀ y ∈ high, bytes x < bytes y) (hopen : low ≠ none ∨ high = none) :
    ∃ key, keyBetween low high = .ok key ∧ WellFormed key ∧ (∀ x ∈ low, bytes x < bytes key) ∧
      ∀ y ∈ high, bytes key < bytes y := by
  obtain ⟨key, hkey, hshaped, hbelow, habove⟩ := keyBetween_spec hlow hhigh hlt
  refine ⟨key, hkey, ⟨hshaped, fun hsmall => ?_⟩, hbelow, habove⟩
  obtain ⟨rfl, rfl⟩ := keyBetween_eq_smallest hlow hhigh hlt hkey hsmall
  simp at hopen

/-- **Any number of keys is made above a key.** -/
theorem keysAfter_spec (n : Nat) (hlow : ∀ x ∈ low, WellFormed x) :
    ∃ keys, keysAfter n low = .ok keys ∧ keys.length = n ∧ Fills low none keys := by
  induction n generalizing low with
  | zero => exact ⟨[], rfl, rfl, .nil low none⟩
  | succ n ih =>
    have hhigh : ∀ y ∈ (none : Option String), WellFormed y := by simp
    obtain ⟨key, hkey, hwell, hbelow, habove⟩ :=
      keyBetween_wellFormed hlow hhigh (by simp) (Or.inr rfl)
    have hnext : ∀ x ∈ some key, WellFormed x := by rintro _ ⟨⟩; exact hwell
    obtain ⟨rest, hrest, hlen, hfills⟩ := ih hnext
    refine ⟨key :: rest, ?_, congrArg Nat.succ hlen,
      .around hwell.shaped (.nil low _) hfills hbelow habove⟩
    exact bind_eq_ok.mpr ⟨key, hkey, bind_eq_ok.mpr ⟨rest, hrest, rfl⟩⟩

/-- **Any number of keys is made between two keys.** -/
theorem keysInside_spec (n : Nat) {a b : String} (ha : WellFormed a) (hb : WellFormed b)
    (hlt : bytes a < bytes b) :
    ∃ keys, keysInside a b n = .ok keys ∧ keys.length = n ∧ Fills (some a) (some b) keys := by
  induction n using Nat.strongRecOn generalizing a b with
  | ind n ih =>
    cases n with
    | zero => exact ⟨[], by rw [keysInside], rfl, .nil _ _⟩
    | succ n =>
      have hlow : ∀ x ∈ some a, WellFormed x := by rintro _ ⟨⟩; exact ha
      have hhigh : ∀ y ∈ some b, WellFormed y := by rintro _ ⟨⟩; exact hb
      obtain ⟨key, hkey, hwell, hbelow, habove⟩ := keyBetween_wellFormed hlow hhigh
        (by rintro _ ⟨⟩ _ ⟨⟩; exact hlt) (Or.inl (Option.some_ne_none a))
      obtain ⟨lower, hlower, hlen, hfills⟩ :=
        ih ((n + 1) / 2) (by omega) ha hwell (hbelow a rfl)
      obtain ⟨upper, hupper, hlen', hfills'⟩ :=
        ih (n - (n + 1) / 2) (by omega) hwell hb (habove b rfl)
      refine ⟨lower ++ key :: upper, ?_, ?_, .around hwell.shaped hfills hfills' hbelow habove⟩
      · rw [keysInside]
        exact bind_eq_ok.mpr ⟨key, hkey, bind_eq_ok.mpr ⟨lower, hlower,
          bind_eq_ok.mpr ⟨upper, hupper, rfl⟩⟩⟩
      · rw [List.length_append, List.length_cons, hlen, hlen']
        omega

/-! ## Counting down -/

/-- **Keys that are made below a key descend.** -/
theorem keysBefore_spec {n : Nat} (hhigh : ∀ y ∈ high, Shaped y.toList)
    (h : keysBefore n high = .ok keys) : keys.length = n ∧ Fills none high keys.reverse := by
  induction n generalizing high keys with
  | zero =>
    obtain rfl := Except.ok.inj h
    exact ⟨rfl, .nil none high⟩
  | succ n ih =>
    obtain ⟨key, hkey, h⟩ := bind_eq_ok.mp h
    obtain ⟨rest, hrest, h⟩ := bind_eq_ok.mp h
    obtain rfl := Except.ok.inj h
    obtain ⟨hshaped, hbelow, habove⟩ := keyBetween_shaped (by simp) hhigh (by simp) hkey
    obtain ⟨hlen, hfills⟩ := ih (by rintro _ ⟨⟩; exact hshaped) hrest
    refine ⟨congrArg Nat.succ hlen, ?_⟩
    rw [List.reverse_cons]
    exact .around hshaped hfills (.nil _ high) hbelow habove

/-- **Below a key there is room** until the lowest integer part is reached, which is refused. -/
theorem keysBefore_fault {n : Nat} {f : Fault} (hhigh : ∀ y ∈ high, Shaped y.toList)
    (h : keysBefore n high = .error f) : f = .malformed (String.ofList smallest) := by
  induction n generalizing high with
  | zero => cases h
  | succ n ih =>
    by_cases hroom : ∀ y ∈ high, y.toList ≠ smallest
    · have hlow : ∀ x ∈ (none : Option String), WellFormed x := by simp
      obtain ⟨key, hkey, hshaped, -⟩ := keyBetween_spec hlow
        (fun y hy => ⟨hhigh y hy, hroom y hy⟩) (by simp)
      rw [keysBefore] at h
      obtain hnone | ⟨_, hmade, h⟩ := bind_eq_error.mp h
      · cases hkey.symm.trans hnone
      · obtain rfl := Except.ok.inj (hkey.symm.trans hmade)
        obtain hrest | ⟨rest, -, hok⟩ := bind_eq_error.mp h
        · exact ih (by rintro _ ⟨⟩; exact hshaped) hrest
        · cases hok
    · push Not at hroom
      obtain ⟨y, rfl, hy⟩ := hroom
      obtain rfl : y = String.ofList smallest := by rw [← hy, String.ofList_toList]
      have hrefused : keyBetween none (some (String.ofList smallest)) =
          .error (.malformed (String.ofList smallest)) := by decide +kernel
      rw [keysBefore, hrefused] at h
      exact (Except.error.inj h).symm

/-! ## Keys between two bounds -/

/-- Where there is a lower bound or no upper one, any number of keys is made. -/
theorem keysBetween_open (n : Nat) (hlow : ∀ x ∈ low, WellFormed x)
    (hhigh : ∀ y ∈ high, WellFormed y) (hlt : ∀ x ∈ low, ∀ y ∈ high, bytes x < bytes y)
    (hopen : low ≠ none ∨ high = none) :
    ∃ keys, keysBetween low high n = .ok keys ∧ keys.length = n ∧ Fills low high keys := by
  cases high with
  | none => exact keysAfter_spec n hlow
  | some y =>
    cases low with
    | some x => exact keysInside_spec n (hlow x rfl) (hhigh y rfl) (hlt x rfl y rfl)
    | none => simp at hopen

/-- **As many keys as were asked for**: integer parts with fractions, strictly ascending and
strictly between the bounds. They are made wherever there is a lower bound or no upper one; below an
upper bound alone they are counted down, which fails only where the lowest integer part is reached
before there are enough. -/
theorem keysBetween_ascending (n : Nat) (low high : Option String) (hlow : ∀ x ∈ low, WellFormed x)
    (hhigh : ∀ y ∈ high, WellFormed y) (hlt : ∀ x ∈ low, ∀ y ∈ high, bytes x < bytes y) :
    (∀ keys, keysBetween low high n = .ok keys →
      keys.length = n ∧ (∀ k ∈ keys, Shaped k.toList) ∧
        (keys.Pairwise fun j k => bytes j < bytes k) ∧
        ∀ k ∈ keys, (∀ x ∈ low, bytes x < bytes k) ∧ ∀ y ∈ high, bytes k < bytes y) ∧
      (low ≠ none ∨ high = none → ∃ keys, keysBetween low high n = .ok keys) ∧
      ∀ f, keysBetween low high n = .error f →
        low = none ∧ high ≠ none ∧ f = .malformed (String.ofList smallest) := by
  by_cases hopen : low ≠ none ∨ high = none
  · obtain ⟨keys, hkeys, hlen, hfills⟩ := keysBetween_open n hlow hhigh hlt hopen
    refine ⟨fun keys' h => ?_, fun _ => ⟨keys, hkeys⟩, fun f h => ?_⟩
    · obtain rfl := Except.ok.inj (hkeys.symm.trans h)
      exact ⟨hlen, hfills.shaped, hfills.ascending, hfills.inside⟩
    · exact absurd (hkeys.symm.trans h) (by simp)
  · obtain ⟨rfl, y, rfl⟩ : low = none ∧ ∃ y, high = some y := by
      rw [not_or, not_not, ← ne_eq, Option.ne_none_iff_exists'] at hopen
      exact hopen
    have hy : ∀ x ∈ some y, Shaped x.toList := fun x hx => (hhigh x hx).shaped
    refine ⟨fun keys h => ?_, fun h => absurd h hopen, fun f h => ?_⟩
    · obtain ⟨down, hdown, rfl⟩ := map_eq_ok.mp h
      obtain ⟨hlen, hfills⟩ := keysBefore_spec hy hdown
      exact ⟨List.length_reverse.trans hlen, hfills.shaped, hfills.ascending, hfills.inside⟩
    · exact ⟨rfl, Option.some_ne_none y, keysBefore_fault hy (map_eq_error.mp h)⟩

/-- Three keys between two neighbours, made in one go. -/
theorem keysBetween_ascending_of_neighbours :
    bytes "a0" < bytes "a1" ∧ ∃ keys, keysBetween (some "a0") (some "a1") 3 = .ok keys ∧
      keys.length = 3 ∧ (keys.Pairwise fun j k => bytes j < bytes k) ∧
      ∀ k ∈ keys, bytes "a0" < bytes k ∧ bytes k < bytes "a1" := by
  have hlt : bytes "a0" < bytes "a1" := by decide +kernel
  obtain ⟨hmade, hopen, -⟩ := keysBetween_ascending 3 (some "a0") (some "a1")
    (by rintro _ ⟨⟩; decide +kernel) (by rintro _ ⟨⟩; decide +kernel)
    (by rintro _ ⟨⟩ _ ⟨⟩; exact hlt)
  obtain ⟨keys, hkeys⟩ := hopen (Or.inl (Option.some_ne_none _))
  obtain ⟨hlen, -, hascending, hinside⟩ := hmade keys hkeys
  exact ⟨hlt, keys, hkeys, hlen, hascending, fun k hk =>
    ⟨(hinside k hk).1 _ rfl, (hinside k hk).2 _ rfl⟩⟩

end OrderKey

end DeltaView
