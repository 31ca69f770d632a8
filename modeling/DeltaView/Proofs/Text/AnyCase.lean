import DeltaView.Expr.Function
import DeltaView.Proofs.Text.Case
import DeltaView.Proofs.Text.Wildcard

/-!
# Patterns in small letters

A text is like a pattern in any case if it is like the pattern once both are written in small
letters. Writing the pattern so keeps its signs where they are, but a text that matches may fail to
match then, for two reasons. An underscore stands for one character, and the dotted capital `I`
has two small ones. And the small letter of a sigma depends on the characters around it, which a
sign of the pattern hides.

* `Pattern.SettlesSigmas`: the pattern shows enough of what is around each of its sigmas to know
  its small letter in every text that matches.
* `Pattern.Matches.lowerAfter`: a match is one of the small letters too, if what the pattern has
  before it agrees with what the text has.
* **`ilike_of_like`**: what is like a pattern is like it in any case, if no underscore can stand
  for the dotted capital `I` and the sigmas of the pattern are settled.
-/

namespace DeltaView

namespace Pattern

open Letter (lowerIn casedAfter isTransparent isCased startsCased lowerAfter_cons)

instance : DecidablePred IsSign := fun c =>
  inferInstanceAs (Decidable (c = '%' ∨ c = '_' ∨ c = '\\'))

variable {p s : List Char} {a b : Bool} {c d : Char}

/-! ## Signs -/

/-- A sign is its own small letter. -/
theorem IsSign.lowerIn_eq (hc : IsSign c) : lowerIn a c p = [c] := by
  rcases hc with rfl | rfl | rfl <;> rfl

theorem IsSign.not_isTransparent (hc : IsSign c) : isTransparent c = false := by
  rcases hc with rfl | rfl | rfl <;> decide +kernel

theorem IsSign.not_isCased (hc : IsSign c) : isCased c = false := by
  rcases hc with rfl | rfl | rfl <;> decide +kernel

/-- A sign separates what is before it from what comes after. -/
theorem IsSign.casedAfter_eq (hc : IsSign c) : casedAfter a c = false := by
  simp [casedAfter, hc.not_isTransparent, hc.not_isCased]

theorem IsSign.toNat_lt (hc : IsSign c) : c.toNat < 'a'.toNat := by
  rcases hc with rfl | rfl | rfl <;> decide

/-- Small letters do not become signs. -/
theorem not_isSign_of_mem_lowerIn (hc : ¬ IsSign c) (hd : d ∈ lowerIn a c p) : ¬ IsSign d := by
  intro hs
  unfold lowerIn at hd
  split at hd
  · obtain rfl := List.mem_singleton.mp hd
    split at hs <;> exact absurd hs (by decide)
  · rcases Letter.eq_or_le_of_mem_lowerChar hd with rfl | hle
    · exact hc hs
    · exact absurd hs.toNat_lt (Nat.not_lt.mpr hle)

/-! ## Matching letters -/

/-- The same characters may stand in front of both sides. -/
theorem Matches.append {r : List Char} (hr : ∀ d ∈ r, ¬ IsSign d) (h : Matches p s) :
    Matches (r ++ p) (r ++ s) := by
  induction r with
  | nil => exact h
  | cons d r ih =>
    exact .plain (hr d List.mem_cons_self) (ih fun e he => hr e (List.mem_cons_of_mem _ he))

/-- Only the first of several small letters is escaped; the others are no signs. -/
theorem Matches.escape (h : Matches p s) (c : Char) (q : List Char) :
    Matches ('\\' :: (lowerIn a c q ++ p)) (lowerIn a c q ++ s) := by
  by_cases hc : IsSign c
  · rw [hc.lowerIn_eq]
    exact .escaped c h
  · obtain ⟨d, r, hl⟩ := List.exists_cons_of_ne_nil (Letter.lowerIn_ne_nil a c q)
    have hr : ∀ e ∈ r, ¬ IsSign e := fun e he =>
      not_isSign_of_mem_lowerIn hc (hl ▸ List.mem_cons_of_mem d he)
    rw [hl]
    exact .escaped d (h.append hr)

/-! ## Sigmas -/

/-- Is the first character that is not transparent a sign? -/
def startsWithSign : List Char → Bool
  | [] => false
  | c :: p => if isTransparent c then startsWithSign p else decide (IsSign c)

/-- Does the pattern show, around each of its sigmas, what decides its small letter? It does where a
cased character follows, and where `known` says that a text that matches has the same before the
sigma, as long as that is not cased or what follows is no sign. -/
def SigmasSettled : (known cased : Bool) → List Char → Prop
  | _, _, [] => True
  | known, cased, c :: p =>
    (c = 'Σ' → startsCased p ∨ known ∧ (cased = false ∨ startsWithSign p = false)) ∧
      SigmasSettled (if isTransparent c then known else !decide (IsSign c)) (casedAfter cased c) p

instance : ∀ (known cased : Bool) (p : List Char), Decidable (SigmasSettled known cased p)
  | _, _, [] => .isTrue trivial
  | known, cased, c :: p =>
    haveI := instDecidableSigmasSettled (if isTransparent c then known else !decide (IsSign c))
      (casedAfter cased c) p
    inferInstanceAs (Decidable (_ ∧ _))

/-- Before the first character there is nothing, in the pattern as in the text. -/
def SettlesSigmas (p : List Char) : Prop := SigmasSettled true false p

instance (p : List Char) : Decidable (SettlesSigmas p) :=
  inferInstanceAs (Decidable (SigmasSettled true false p))

theorem SigmasSettled.of_sign {known : Bool} (hc : IsSign c) (h : SigmasSettled known a (c :: p)) :
    SigmasSettled false false p := by
  have h := h.2
  rw [hc.not_isTransparent, hc.casedAfter_eq] at h
  simpa [hc] using h

theorem startsWithSign_cons (hc : IsSign c) : startsWithSign (c :: p) = true := by
  rw [startsWithSign, hc.not_isTransparent]
  simpa using hc

/-- If the pattern shows what follows, the text has just that. -/
theorem Matches.startsCased_eq (h : Matches p s) (hp : startsWithSign p = false) :
    startsCased p = startsCased s := by
  induction h with
  | nil => rfl
  | run => exact absurd ((startsWithSign_cons (Or.inl rfl)).symm.trans hp) (by decide)
  | one => exact absurd ((startsWithSign_cons (Or.inr (Or.inl rfl))).symm.trans hp) (by decide)
  | escaped => exact absurd ((startsWithSign_cons (Or.inr (Or.inr rfl))).symm.trans hp) (by decide)
  | plain hc h ih =>
    rw [startsWithSign] at hp
    rw [startsCased, startsCased]
    split
    · rename_i ht
      exact ih (by rwa [if_pos ht] at hp)
    · rfl

theorem startsCased_eq_false (hp : startsWithSign p = true) : startsCased p = false := by
  induction p with
  | nil => rfl
  | cons c p ih =>
    rw [startsWithSign] at hp
    rw [startsCased]
    split
    · rename_i ht
      exact ih (by rwa [if_pos ht] at hp)
    · rename_i ht
      rw [if_neg ht, decide_eq_true_eq] at hp
      exact hp.not_isCased

/-- A settled character has the same small letters in the pattern and in the text. -/
theorem Matches.lowerIn_eq (h : Matches p s) {known : Bool} (hk : known = true → a = b)
    (hc : c = 'Σ' → startsCased p ∨ known ∧ (a = false ∨ startsWithSign p = false)) :
    lowerIn a c p = lowerIn b c s := by
  refine Letter.lowerIn_congr fun he => ?_
  rcases hc he with hp | ⟨hknown, hp⟩
  · have hno : startsWithSign p = false := Bool.eq_false_iff.mpr fun hsign =>
      absurd ((startsCased_eq_false hsign).symm.trans hp) (by decide)
    rw [← h.startsCased_eq hno, hp]
    simp
  · obtain rfl := hk hknown
    rcases hp with rfl | hno
    · rfl
    · rw [h.startsCased_eq hno]

/-! ## Matches in small letters -/

theorem ofChars_plain (hc : ¬ IsSign c) : ofChars (c :: p) = .literal c :: ofChars p := by
  rw [ofChars]
  · exact fun h => hc (Or.inl h)
  · exact fun h => hc (Or.inr (Or.inl h))
  · exact fun h => absurd (Or.inr (Or.inr h)) hc
  · exact fun _ _ h => absurd (Or.inr (Or.inr h)) hc

theorem casedAfter_congr {known other : Bool} (hk : known = true → a = b)
    (h : (if isTransparent c then known else other) = true) : casedAfter a c = casedAfter b c := by
  unfold casedAfter
  split
  · rename_i ht
    rw [if_pos ht] at h
    exact hk h
  · rfl

/-- **A match is one of the small letters too.** -/
theorem Matches.lowerAfter (h : Matches p s) {known : Bool} (hk : known = true → a = b)
    (hone : Piece.one ∈ ofChars p → 'İ' ∉ s) (hsigma : SigmasSettled known a p) :
    Matches (Letter.lowerAfter a p) (Letter.lowerAfter b s) := by
  -- Behind a sign nothing is known any more; up to the next one, both sides go on alike.
  induction h generalizing a b known with
  | nil => exact .nil
  | @run p s r h ih =>
    have hrun : IsSign '%' := Or.inl rfl
    obtain ⟨r', b', hs⟩ := Letter.exists_lowerAfter_append b r s
    have hk' : false = true → false = b' := by simp
    rw [lowerAfter_cons, hrun.lowerIn_eq, hrun.casedAfter_eq, hs]
    refine .run r' (ih hk' (fun hp hi => ?_) (hsigma.of_sign hrun))
    exact hone (by rw [ofChars]; exact List.mem_cons_of_mem _ hp) (List.mem_append_right r hi)
  | @one p s c h ih =>
    have hsign : IsSign '_' := Or.inr (Or.inl rfl)
    have hi : 'İ' ∉ c :: s := hone (by rw [ofChars]; exact List.mem_cons_self)
    rw [List.mem_cons, not_or] at hi
    obtain ⟨d, hd⟩ := List.length_eq_one_iff.mp
      (Letter.length_lowerIn b s (Ne.symm hi.1))
    have hk' : false = true → false = casedAfter b c := by simp
    rw [lowerAfter_cons, hsign.lowerIn_eq, hsign.casedAfter_eq, lowerAfter_cons, hd]
    exact .one d (ih hk' (fun _ => hi.2) (hsigma.of_sign hsign))
  | @escaped p s c h ih =>
    have hsign : IsSign '\\' := Or.inr (Or.inr rfl)
    obtain ⟨hc, hp⟩ := hsigma.of_sign hsign
    have hk' : false = true → false = b := by simp
    rw [lowerAfter_cons, hsign.lowerIn_eq, hsign.casedAfter_eq, lowerAfter_cons, lowerAfter_cons,
      ← h.lowerIn_eq hk' hc]
    refine Matches.escape (ih (casedAfter_congr hk') (fun hp hi => ?_) hp) c p
    exact hone (by rw [ofChars]; exact List.mem_cons_of_mem _ hp) (List.mem_cons_of_mem c hi)
  | @plain p s c hc h ih =>
    rw [lowerAfter_cons, lowerAfter_cons, ← h.lowerIn_eq hk hsigma.1]
    refine (ih (casedAfter_congr hk) (fun hp hi => ?_) hsigma.2).append fun d =>
      not_isSign_of_mem_lowerIn hc
    exact hone (by rw [ofChars_plain hc]; exact List.mem_cons_of_mem _ hp)
      (List.mem_cons_of_mem c hi)

end Pattern

/-- **What is like a pattern is like it in any case**, if no underscore of the pattern can stand for
the dotted capital `I`, which has two small letters, and the pattern settles the small letters of
its sigmas. -/
theorem ilike_of_like (text pattern : String)
    (hlike : Function.like.apply [.string text, .string pattern] = .bool true)
    (hone : Pattern.Piece.one ∈ Pattern.ofChars pattern.toList → 'İ' ∉ text.toList)
    (hsigma : Pattern.SettlesSigmas pattern.toList) :
    Function.ilike.apply [.string text, .string pattern] = .bool true := by
  have hmatch : Pattern.Matches pattern.toList text.toList :=
    Pattern.accepts_ofChars_iff.mp (Value.bool.inj hlike)
  have hlower := hmatch.lowerAfter (fun _ : true = true => rfl) hone hsigma
  refine congrArg Value.bool (Pattern.accepts_ofChars_iff.mpr ?_)
  rw [Value.lowerText, Value.lowerText, String.toList_ofList, String.toList_ofList]
  exact hlower

/-- A sigma at the end of a known word, and one behind a run of characters and before a letter. -/
theorem ilike_of_like_of_two_sigmas :
    Function.like.apply [.string "ΟΔΟΣ ΚΩΣΤΑ", .string "ΟΔΟΣ %ΣΤ_"] = .bool true ∧
      'İ' ∉ "ΟΔΟΣ ΚΩΣΤΑ".toList ∧ Pattern.SettlesSigmas "ΟΔΟΣ %ΣΤ_".toList ∧
      Function.ilike.apply [.string "ΟΔΟΣ ΚΩΣΤΑ", .string "ΟΔΟΣ %ΣΤ_"] = .bool true := by
  have hlike : Function.like.apply [.string "ΟΔΟΣ ΚΩΣΤΑ", .string "ΟΔΟΣ %ΣΤ_"] = .bool true := by
    decide +kernel
  have hone : 'İ' ∉ "ΟΔΟΣ ΚΩΣΤΑ".toList := by decide +kernel
  have hsigma : Pattern.SettlesSigmas "ΟΔΟΣ %ΣΤ_".toList := by decide +kernel
  exact ⟨hlike, hone, hsigma, ilike_of_like _ _ hlike (fun _ => hone) hsigma⟩

/-- An underscore does not stand for both small letters of the dotted capital `I`, and a sigma at
the end of a word has another small letter than one behind a sign. -/
theorem ilike_of_like_fails :
    (Function.like.apply [.string "İ", .string "_"] = .bool true ∧
      Function.ilike.apply [.string "İ", .string "_"] = .bool false) ∧
    Function.like.apply [.string "ΑΣ", .string "%Σ"] = .bool true ∧
      Function.ilike.apply [.string "ΑΣ", .string "%Σ"] = .bool false := by
  decide +kernel

end DeltaView
