import DeltaView.Text.Wildcard

/-!
# What wildcard patterns match

A pattern and a text match if the text can be cut into parts, one for each sign of the pattern.

* `Pattern.Matches`: the grammar, one rule for each sign. A backslash at the end has none.
* `accepts_ofChars_iff`: trying the pieces of a pattern finds a match if there is one.
* **`isLike_iff_matches`**: a text is like a pattern exactly if they match by the grammar.
* `isLike_of_odd_backslashes`: no text is like a pattern that ends in an odd number of backslashes,
  which leaves the last of them alone.
-/

namespace DeltaView

namespace Pattern

/-- The signs that do not stand for themselves. -/
def IsSign (c : Char) : Prop := c = '%' ∨ c = '_' ∨ c = '\\'

/-- A pattern matches a text, as a whole. -/
inductive Matches : List Char → List Char → Prop
  | nil : Matches [] []
  /-- A percent sign stands for any run of characters, an empty one too. -/
  | run {p s : List Char} (r : List Char) : Matches p s → Matches ('%' :: p) (r ++ s)
  /-- An underscore stands for exactly one character. -/
  | one {p s : List Char} (c : Char) : Matches p s → Matches ('_' :: p) (c :: s)
  /-- A backslash takes the character after it as it is, one of the signs too. -/
  | escaped {p s : List Char} (c : Char) : Matches p s → Matches ('\\' :: c :: p) (c :: s)
  /-- Any other character stands for itself. -/
  | plain {p s : List Char} {c : Char} (hc : ¬ IsSign c) : Matches p s → Matches (c :: p) (c :: s)

/-! ## Rules read backwards -/

variable {p s : List Char} {c : Char}

theorem matches_nil_iff : Matches [] s ↔ s = [] := by
  constructor
  · rintro ⟨⟩
    rfl
  · rintro rfl
    exact .nil

theorem matches_run_iff : Matches ('%' :: p) s ↔ ∃ r t, s = r ++ t ∧ Matches p t := by
  constructor
  · intro h
    cases h with
    | run r h => exact ⟨r, _, rfl, h⟩
    | plain hc h => exact absurd (Or.inl rfl) hc
  · rintro ⟨r, t, rfl, h⟩
    exact .run r h

theorem matches_one_iff : Matches ('_' :: p) s ↔ ∃ d t, s = d :: t ∧ Matches p t := by
  constructor
  · intro h
    cases h with
    | one d h => exact ⟨d, _, rfl, h⟩
    | plain hc h => exact absurd (Or.inr (Or.inl rfl)) hc
  · rintro ⟨d, t, rfl, h⟩
    exact .one d h

theorem matches_escaped_iff : Matches ('\\' :: c :: p) s ↔ ∃ t, s = c :: t ∧ Matches p t := by
  constructor
  · intro h
    cases h with
    | escaped _ h => exact ⟨_, rfl, h⟩
    | plain hc h => exact absurd (Or.inr (Or.inr rfl)) hc
  · rintro ⟨t, rfl, h⟩
    exact .escaped c h

theorem matches_plain_iff (hc : ¬ IsSign c) :
    Matches (c :: p) s ↔ ∃ t, s = c :: t ∧ Matches p t := by
  constructor
  · intro h
    cases h with
    | run => exact absurd (Or.inl rfl) hc
    | one => exact absurd (Or.inr (Or.inl rfl)) hc
    | escaped => exact absurd (Or.inr (Or.inr rfl)) hc
    | plain _ h => exact ⟨_, rfl, h⟩
  · rintro ⟨t, rfl, h⟩
    exact .plain hc h

/-- **A lone backslash at the end matches nothing.** -/
theorem not_matches_lone_backslash : ¬ Matches ['\\'] s := by
  intro h
  cases h with
  | plain hc h => exact hc (Or.inr (Or.inr rfl))

/-- What comes after a first character other than a backslash ends in the same backslashes. -/
theorem exists_tail_of_ne {q : List Char} {n : Nat} (hc : c ≠ '\\')
    (hlast : p.getLast? ≠ some '\\') (hq : p ++ List.replicate (n + 1) '\\' = c :: q) :
    ∃ p', p'.getLast? ≠ some '\\' ∧ p' ++ List.replicate (n + 1) '\\' = q := by
  cases p with
  | nil => exact absurd (List.cons.inj hq).1.symm hc
  | cons d p =>
    refine ⟨p, fun h => hlast ?_, (List.cons.inj hq).2⟩
    rw [List.getLast?_cons, h, Option.getD_some]

/-- **A pattern that ends in an odd number of backslashes matches nothing**: they escape each other
in pairs, and the last one is left alone. -/
theorem not_matches_of_odd_backslashes (n : Nat) (hlast : p.getLast? ≠ some '\\') :
    ¬ Matches (p ++ List.replicate (2 * n + 1) '\\') s := by
  intro h
  generalize hq : p ++ List.replicate (2 * n + 1) '\\' = q at h
  induction h generalizing p n with
  | nil => simp at hq
  | run r h ih =>
    obtain ⟨p', hlast', hq'⟩ := exists_tail_of_ne (by decide) hlast hq
    exact ih n hlast' hq'
  | one c h ih =>
    obtain ⟨p', hlast', hq'⟩ := exists_tail_of_ne (by decide) hlast hq
    exact ih n hlast' hq'
  | escaped c h ih =>
    match p, hlast, hq with
    | [], _, hq =>
      -- The first two of the backslashes are a pair.
      cases n with
      | zero => simp at hq
      | succ n => exact ih n (p := []) (by simp) (List.cons.inj (List.cons.inj hq).2).2
    | [d], hlast, hq => exact hlast (congrArg some (List.cons.inj hq).1)
    | _ :: d :: p, hlast, hq =>
      refine ih n (fun he => hlast ?_) (List.cons.inj (List.cons.inj hq).2).2
      rw [List.getLast?_cons_cons, List.getLast?_cons, he, Option.getD_some]
  | plain hc h ih =>
    obtain ⟨p', hlast', hq'⟩ := exists_tail_of_ne (fun he => hc (Or.inr (Or.inr he))) hlast hq
    exact ih n hlast' hq'

/-! ## Trying the pieces -/

theorem anyRest_iff {test : List Char → Bool} :
    anyRest test s = true ↔ ∃ r t, s = r ++ t ∧ test t = true := by
  induction s with
  | nil =>
    constructor
    · exact fun h => ⟨[], [], rfl, h⟩
    · rintro ⟨r, t, hs, h⟩
      rwa [(List.append_eq_nil_iff.mp hs.symm).2] at h
  | cons c s ih =>
    rw [anyRest, Bool.or_eq_true, ih]
    constructor
    · rintro (h | ⟨r, t, rfl, h⟩)
      · exact ⟨[], _, rfl, h⟩
      · exact ⟨c :: r, t, rfl, h⟩
    · rintro ⟨r, t, hs, h⟩
      cases r with
      | nil => exact Or.inl (hs ▸ h)
      | cons d r => exact Or.inr ⟨r, t, (List.cons.inj hs).2, h⟩

theorem accepts_one_iff {pieces : List Piece} :
    accepts (.one :: pieces) s = true ↔ ∃ d t, s = d :: t ∧ accepts pieces t = true := by
  cases s with
  | nil => simp [accepts]
  | cons d s =>
    constructor
    · exact fun h => ⟨d, s, rfl, h⟩
    · rintro ⟨_, t, hs, h⟩
      exact (List.cons.inj hs).2 ▸ h

theorem accepts_literal_iff {pieces : List Piece} :
    accepts (.literal c :: pieces) s = true ↔ ∃ t, s = c :: t ∧ accepts pieces t = true := by
  cases s with
  | nil => simp [accepts]
  | cons d s =>
    rw [accepts, Bool.and_eq_true, beq_iff_eq]
    constructor
    · rintro ⟨rfl, h⟩
      exact ⟨s, rfl, h⟩
    · rintro ⟨t, hs, h⟩
      obtain ⟨rfl, rfl⟩ := List.cons.inj hs
      exact ⟨rfl, h⟩

/-- **Trying the pieces of a pattern finds a match if there is one.** -/
theorem accepts_ofChars_iff : accepts (ofChars p) s = true ↔ Matches p s := by
  induction p using ofChars.induct generalizing s with
  | case1 => rw [matches_nil_iff, ofChars, accepts, List.isEmpty_iff]
  | case2 p ih =>
    rw [matches_run_iff, ofChars, accepts, anyRest_iff]
    simp only [ih]
  | case3 p ih =>
    rw [matches_one_iff, ofChars, accepts_one_iff]
    simp only [ih]
  | case4 =>
    rw [ofChars, accepts]
    exact ⟨fun h => absurd h Bool.false_ne_true, fun h => absurd h not_matches_lone_backslash⟩
  | case5 c p ih =>
    rw [matches_escaped_iff, ofChars, accepts_literal_iff]
    simp only [ih]
  | case6 c p hrun hone hlone hescape ih =>
    have hc : ¬ IsSign c := by
      rintro (rfl | rfl | rfl)
      · exact hrun rfl
      · exact hone rfl
      · cases p with
        | nil => exact hlone rfl rfl
        | cons d p => exact hescape d p rfl rfl
    rw [matches_plain_iff hc, ofChars, accepts_literal_iff]
    · simp only [ih]
    all_goals assumption

end Pattern

/-- **A text is like a pattern exactly if the pattern matches the whole text**: a percent sign any
run of characters, an underscore one character, a backslash the character after it, any other
character itself, and a backslash with nothing after it no text. -/
theorem isLike_iff_matches (text pattern : String) :
    isLike text pattern = true ↔ Pattern.Matches pattern.toList text.toList :=
  Pattern.accepts_ofChars_iff

/-- No text is like a pattern that ends in an odd number of backslashes. -/
theorem isLike_of_odd_backslashes (text : String) {pattern : String} {p : List Char} (n : Nat)
    (hp : pattern.toList = p ++ List.replicate (2 * n + 1) '\\') (hlast : p.getLast? ≠ some '\\') :
    isLike text pattern = false := by
  refine Bool.eq_false_iff.mpr fun h => ?_
  rw [isLike, Pattern.accepts_ofChars_iff, hp] at h
  exact Pattern.not_matches_of_odd_backslashes n hlast h

end DeltaView
