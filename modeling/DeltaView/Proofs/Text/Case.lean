import DeltaView.Text.Case

/-!
# Small letters one by one

The small letters of a text are the small letters of its characters, one after the other. What a
character gives depends on the character alone, but for a capital sigma, which looks at the
characters around it.

* `lowerAfter_cons`: the small letters of a text, from those of its first character.
* `lowerIn_congr`: around them, only the two neighbours of a sigma matter.
* `length_lowerChar`: one character gives one small letter, but for the dotted capital `I`.
* **`eq_or_le_of_mem_lowerChar`**: a small letter is the character itself, or a character from `a`
  on. So none of the characters before `a` comes up where it was not.
-/

namespace DeltaView

namespace Letter

/-! ## Characters among others -/

/-- The small letters of a character that follows a cased character or not and that others
follow. -/
def lowerIn (cased : Bool) (c : Char) (after : List Char) : List Char :=
  if c = 'Σ' then [if cased && !startsCased after then 'ς' else 'σ'] else lowerChar c

/-- Is the last character a cased one once another has come, transparent ones not counted? -/
def casedAfter (cased : Bool) (c : Char) : Bool := if isTransparent c then cased else isCased c

theorem lowerAfter_cons (cased : Bool) (c : Char) (s : List Char) :
    lowerAfter cased (c :: s) = lowerIn cased c s ++ lowerAfter (casedAfter cased c) s := by
  unfold lowerIn casedAfter
  rw [lowerAfter]
  split
  · rw [List.singleton_append]
  · rfl

/-- The small letters of a text end in those of any rest of it. -/
theorem exists_lowerAfter_append (cased : Bool) (r s : List Char) :
    ∃ r' cased', lowerAfter cased (r ++ s) = r' ++ lowerAfter cased' s := by
  induction r generalizing cased with
  | nil => exact ⟨[], cased, rfl⟩
  | cons c r ih =>
    obtain ⟨r', cased', h⟩ := ih (casedAfter cased c)
    refine ⟨lowerIn cased c (r ++ s) ++ r', cased', ?_⟩
    rw [List.cons_append, lowerAfter_cons, h, List.append_assoc]

/-- Around a character only what a sigma looks at matters. -/
theorem lowerIn_congr {a b : Bool} {c : Char} {p s : List Char}
    (h : c = 'Σ' → (a && !startsCased p) = (b && !startsCased s)) :
    lowerIn a c p = lowerIn b c s := by
  unfold lowerIn
  split
  · rename_i hc
    rw [h hc]
  · rfl

/-! ## Single characters -/

theorem toNat_ofNat {n : Nat} (h : n.isValidChar) : (Char.ofNat n).toNat = n := by
  rw [Char.ofNat, dif_pos h]
  rfl

theorem exists_run {runs : List (Nat × Nat × Nat × Int)} {n k : Nat}
    (h : shifted? runs n = some k) :
    ∃ run ∈ runs, run.1 ≤ n ∧ n ≤ run.2.1 ∧ k = (n + run.2.2.2).toNat := by
  obtain ⟨⟨first, last, step, shift⟩, hrun, hk⟩ := List.exists_of_findSome?_eq_some h
  dsimp only at hk
  split at hk
  · rename_i hin
    simp only [Bool.and_eq_true, decide_eq_true_eq] at hin
    exact ⟨_, hrun, hin.1.1, hin.1.2, (Option.some.inj hk).symm⟩
  · exact absurd hk (by simp)

/-- The runs of the table lead to characters from `a` on. -/
theorem lowerRuns_images : ∀ run ∈ lowerRuns,
    'a'.toNat ≤ run.1 + run.2.2.2 ∧
      (run.2.1 + run.2.2.2 < 0xD800 ∨
        0xE000 ≤ run.1 + run.2.2.2 ∧ run.2.1 + run.2.2.2 < 0x110000) := by
  decide +kernel

theorem lowerLong_images : ∀ entry ∈ lowerLong, ∀ d ∈ entry.2.map Char.ofNat,
    'a'.toNat ≤ d.toNat := by
  intro entry hentry d hd
  obtain rfl := List.mem_singleton.mp hentry
  simp only [List.map_cons, List.map_nil, List.mem_cons, List.not_mem_nil, or_false] at hd
  rcases hd with rfl | rfl <;> decide

/-- **A small letter is the character itself or a character from `a` on.** -/
theorem eq_or_le_of_mem_lowerChar {c d : Char} (h : d ∈ lowerChar c) :
    d = c ∨ 'a'.toNat ≤ d.toNat := by
  unfold lowerChar at h
  split at h
  · obtain rfl := List.mem_singleton.mp h
    unfold Char.toLower
    split
    · rename_i hc
      have hA : 'A'.toNat ≤ c.val.toNat := hc.1
      have hZ : c.val.toNat ≤ 'Z'.toNat := hc.2
      refine Or.inr ?_
      show 97 ≤ (c.val + 32).toNat
      rw [UInt32.toNat_add, Nat.mod_eq_of_lt]
      · exact Nat.add_le_add_right hA 32
      · exact Nat.lt_of_le_of_lt (Nat.add_le_add_right hZ 32) (by decide)
    · exact Or.inl rfl
  · unfold mapped at h
    split at h
    · rename_i cs hcs
      obtain ⟨l, r, heq, -⟩ := List.lookup_eq_some_iff.mp hcs
      exact Or.inr (lowerLong_images (c.toNat, cs) (by simp [heq]) d h)
    · obtain rfl := List.mem_singleton.mp h
      cases hk : shifted? lowerRuns c.toNat with
      | none => exact Or.inl rfl
      | some k =>
        refine Or.inr ?_
        obtain ⟨run, hrun, hfirst, hlast, rfl⟩ := exists_run hk
        obtain ⟨hle, hvalid⟩ := lowerRuns_images run hrun
        have hn : (c.toNat + run.2.2.2).toNat.isValidChar := by
          unfold Nat.isValidChar
          omega
        show 'a'.toNat ≤ (Char.ofNat (c.toNat + run.2.2.2).toNat).toNat
        rw [toNat_ofNat hn]
        omega

/-- One character gives one small letter, but for the dotted capital `I`. -/
theorem length_lowerChar {c : Char} (hc : c ≠ 'İ') : (lowerChar c).length = 1 := by
  unfold lowerChar
  split
  · rfl
  · have hlong : lowerLong.lookup c.toNat = none := by
      have hne : c.toNat ≠ 0x130 := fun h => hc (Char.toNat_inj.mp h)
      simp [List.lookup_eq_none_iff, lowerLong, hne]
    unfold mapped
    rw [hlong]
    rfl

theorem length_lowerIn (cased : Bool) (after : List Char) {c : Char} (hc : c ≠ 'İ') :
    (lowerIn cased c after).length = 1 := by
  unfold lowerIn
  split
  · rfl
  · exact length_lowerChar hc

theorem lowerIn_ne_nil (cased : Bool) (c : Char) (after : List Char) :
    lowerIn cased c after ≠ [] := by
  by_cases hc : c = 'İ'
  · rw [hc]
    exact List.cons_ne_nil _ _
  · intro h
    simpa [h] using length_lowerIn cased after hc

end Letter

end DeltaView
