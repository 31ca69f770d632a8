import DeltaView.Group.Aggregate
import DeltaView.Proofs.Value.TotalOrder

/-!
# Least and greatest values

The least value of a list is found by a fold that keeps the better of two values, and so is the
greatest. Two integers are compared exactly and other numbers by rounded size, which is not
transitive, so that the value found depends on the order of the list. It does not depend much.

* `foldl_pick`: a fold that keeps the better of two values ends with one that no other value beats, if
  being no worse is transitive.
* `Value.AtMost` is: it compares by rounded size, and at sizes that are called sharp by the order of
  values too.
* **`PicksExtreme.perm`**: every order of a list gives an extreme of the same rounded size, and the
  same extreme if no integer and float in the list tie for the place.
-/

namespace DeltaView

/-! ## Folds that keep the better of two values -/

section Pick

variable {α : Type} {P : α → Prop} {R : α → α → Prop}

/-- A fold that keeps the better of two values ends with one that is at least as good as all. -/
theorem foldl_pick (better : α → α → Bool) (hrefl : ∀ x, R x x)
    (htrans : ∀ {x y z}, R x y → R y z → R x z)
    (hbetter : ∀ {x y}, P x → P y → better x y = true → R x y)
    (hworse : ∀ {x y}, P x → P y → better x y = false → R y x) :
    ∀ (v : α) (vs : List α), (∀ x ∈ v :: vs, P x) →
      let best := vs.foldl (fun best w => if better w best then w else best) v
      best ∈ v :: vs ∧ ∀ x ∈ v :: vs, R best x
  | v, [], _ => ⟨List.mem_cons_self, fun x hx => (List.mem_singleton.mp hx) ▸ hrefl v⟩
  | v, w :: vs, h => by
    have hv := h v List.mem_cons_self
    have hw := h w (List.mem_cons_of_mem _ List.mem_cons_self)
    have hvs : ∀ x ∈ vs, P x := fun x hx => h x (List.mem_cons_of_mem _ (List.mem_cons_of_mem _ hx))
    intro best
    have hstep : best = vs.foldl (fun best w => if better w best then w else best)
      (if better w v then w else v) := rfl
    cases hb : better w v with
    | true =>
      rw [hb, if_pos rfl] at hstep
      obtain ⟨hmem, hbest⟩ := foldl_pick better hrefl htrans hbetter hworse w vs
        (List.forall_mem_cons.mpr ⟨hw, hvs⟩)
      rw [← hstep] at hmem hbest
      refine ⟨List.mem_cons_of_mem _ hmem, List.forall_mem_cons.mpr ⟨?_, hbest⟩⟩
      exact htrans (hbest w List.mem_cons_self) (hbetter hw hv hb)
    | false =>
      rw [hb, if_neg Bool.false_ne_true] at hstep
      obtain ⟨hmem, hbest⟩ := foldl_pick better hrefl htrans hbetter hworse v vs
        (List.forall_mem_cons.mpr ⟨hv, hvs⟩)
      rw [← hstep] at hmem hbest
      refine ⟨?_, List.forall_mem_cons.mpr ⟨hbest v List.mem_cons_self,
        List.forall_mem_cons.mpr ⟨?_, fun x hx => hbest x (List.mem_cons_of_mem _ hx)⟩⟩⟩
      · rcases List.mem_cons.mp hmem with he | hm
        · exact he ▸ List.mem_cons_self
        · exact List.mem_cons_of_mem _ (List.mem_cons_of_mem _ hm)
      · exact htrans (hbest v List.mem_cons_self) (hworse hw hv hb)

end Pick

namespace Value

/-- A value, an integer as the float of its rounded size. -/
def rounded : Value → Value
  | .int n => .float (Double.ofInt n.toInt)
  | v => v

theorem int_or_not (v : Value) : (∃ n, v = .int n) ∨ v.kind ≠ .int := by
  cases v with
  | int n => exact Or.inl ⟨n, rfl⟩
  | _ => exact Or.inr nofun

theorem compareExtremes_int_int (m n : Int64) :
    compareExtremes (.int m) (.int n) = cmp (.int m) (.int n) := by rw [cmp]; rfl

/-- Extremes are compared by rounded size, unless both are integers. -/
theorem compareExtremes_eq {a b : Value} (h : ¬ (a.kind = .int ∧ b.kind = .int)) :
    compareExtremes a b = cmp a.rounded b.rounded := by
  cases a <;> cases b <;> first
    | exact absurd ⟨rfl, rfl⟩ h
    | rfl

theorem compareExtremes_swap (a b : Value) : compareExtremes b a = (compareExtremes a b).swap := by
  by_cases h : a.kind = .int ∧ b.kind = .int
  · obtain ⟨⟨m, rfl⟩ | hm, ⟨n, rfl⟩ | hn⟩ := And.intro a.int_or_not b.int_or_not
    · rw [compareExtremes_int_int, compareExtremes_int_int, cmp_swap]
    · exact absurd h.2 hn
    · exact absurd h.1 hm
    · exact absurd h.1 hm
  · rw [compareExtremes_eq h, compareExtremes_eq fun h' => h h'.symm, cmp_swap]

/-- A value comes before another one by rounded size, or is of one rounded size with it; at sharp
sizes it does not come after it in the order of values then. -/
def AtMost (sharp : Value → Prop) (a b : Value) : Prop :=
  cmp a.rounded b.rounded = .lt ∨ a.rounded = b.rounded ∧ (sharp a.rounded → (cmp a b).isLE)

/-- No integer and float of one sharp size are among some values. -/
def Untied (sharp : Value → Prop) (values : List Value) : Prop :=
  ∀ n : Int64, .int n ∈ values → .float (Double.ofInt n.toInt) ∈ values →
    ¬ sharp (.float (Double.ofInt n.toInt))

variable {sharp : Value → Prop} {values values' : List Value} {a b c : Value}

namespace AtMost

theorem refl (a : Value) : AtMost sharp a a :=
  Or.inr ⟨rfl, fun _ => by rw [(cmp_eq_iff a a).mpr rfl]; rfl⟩

theorem trans (hab : AtMost sharp a b) (hbc : AtMost sharp b c) : AtMost sharp a c := by
  rcases hab with hab | ⟨hab, hab'⟩
  · rcases hbc with hbc | ⟨hbc, -⟩
    · exact Or.inl (cmp_lt_trans _ _ _ hab hbc)
    · exact Or.inl (hbc ▸ hab)
  · rcases hbc with hbc | ⟨hbc, hbc'⟩
    · exact Or.inl (hab ▸ hbc)
    · exact Or.inr ⟨hab.trans hbc, fun hs =>
        Std.TransCmp.isLE_trans (hab' hs) (hbc' (hab ▸ hs))⟩

theorem not_lt (hab : AtMost sharp a b) : cmp b.rounded a.rounded ≠ .lt := by
  rw [cmp_swap a.rounded]
  rcases hab with hab | ⟨hab, -⟩
  · rw [hab]
    decide
  · rw [hab, (cmp_eq_iff _ _).mpr rfl]
    decide

theorem rounded_eq (hab : AtMost sharp a b) (hba : AtMost sharp b a) : a.rounded = b.rounded := by
  rcases hab with hab | ⟨hab, -⟩
  · exact absurd hab hba.not_lt
  · exact hab

theorem eq_of_sharp (hab : AtMost sharp a b) (hba : AtMost sharp b a) (hs : sharp a.rounded) :
    a = b := by
  have he := hab.rounded_eq hba
  have hle : (cmp a b).isLE := (hab.resolve_left fun h => hba.not_lt h).2 hs
  have hge : (cmp b a).isLE := (hba.resolve_left fun h => hab.not_lt h).2 (he ▸ hs)
  exact (cmp_eq_iff a b).mp (Std.OrientedCmp.isLE_antisymm hle hge)

end AtMost

theorem atMost_of_lt (h : compareExtremes a b = .lt) : AtMost sharp a b := by
  by_cases hk : a.kind = .int ∧ b.kind = .int
  · obtain ⟨m, rfl⟩ := a.int_or_not.resolve_right (not_not_intro hk.1)
    obtain ⟨n, rfl⟩ := b.int_or_not.resolve_right (not_not_intro hk.2)
    rw [compareExtremes_int_int] at h
    have hrank := Double.rank_ofInt_mono (le_of_lt (cmp_int_int_lt.mp h))
    rcases lt_or_eq_of_le hrank with hlt | heq
    · exact Or.inl (cmp_float_float_lt.mpr hlt)
    · exact Or.inr ⟨congrArg Value.float (Double.rank_inj heq), fun _ => by rw [h]; rfl⟩
  · exact Or.inl (compareExtremes_eq hk ▸ h)

/-- Values of one rounded size are one value, unless they are integers or tie. -/
theorem eq_of_rounded_eq (h : a.rounded = b.rounded) (hk : ¬ (a.kind = .int ∧ b.kind = .int)) :
    a = b ∨ (∃ n, a = .int n ∧ b = .float (Double.ofInt n.toInt)) ∨
      ∃ n, b = .int n ∧ a = .float (Double.ofInt n.toInt) := by
  obtain ⟨m, rfl⟩ | hm := a.int_or_not
  · obtain ⟨n, rfl⟩ | hn := b.int_or_not
    · exact absurd ⟨rfl, rfl⟩ hk
    · refine Or.inr (Or.inl ⟨m, rfl, ?_⟩)
      cases b <;> first | exact absurd rfl hn | exact h.symm
  · obtain ⟨n, rfl⟩ | hn := b.int_or_not
    · refine Or.inr (Or.inr ⟨n, rfl, ?_⟩)
      cases a <;> first | exact absurd rfl hm | exact h
    · refine Or.inl ?_
      cases a <;> cases b <;> first | exact absurd rfl hm | exact absurd rfl hn | exact h

theorem atMost_of_not_lt (hu : Untied sharp values) (ha : a ∈ values) (hb : b ∈ values)
    (h : compareExtremes a b ≠ .lt) : AtMost sharp b a := by
  cases hba : compareExtremes b a with
  | lt => exact atMost_of_lt hba
  | gt => exact absurd (by rw [compareExtremes_swap b a, hba]; rfl) h
  | eq =>
    by_cases hk : b.kind = .int ∧ a.kind = .int
    · obtain ⟨m, rfl⟩ := b.int_or_not.resolve_right (not_not_intro hk.1)
      obtain ⟨n, rfl⟩ := a.int_or_not.resolve_right (not_not_intro hk.2)
      rw [compareExtremes_int_int, cmp_eq_iff] at hba
      exact hba ▸ AtMost.refl _
    · rw [compareExtremes_eq hk, cmp_eq_iff] at hba
      rcases eq_of_rounded_eq hba hk with rfl | ⟨n, rfl, rfl⟩ | ⟨n, rfl, rfl⟩
      · exact AtMost.refl _
      · exact Or.inr ⟨hba, fun hs => absurd hs (hu n hb ha)⟩
      · exact Or.inr ⟨hba, fun hs => absurd hs (hu n ha hb)⟩

theorem least?_spec (hu : Untied sharp values) (h : least? values = some a) :
    a ∈ values ∧ ∀ x ∈ values, AtMost sharp a x := by
  cases values with
  | nil => cases h
  | cons v vs =>
    have hfold := foldl_pick (P := (· ∈ v :: vs)) (R := AtMost sharp)
      (fun w best => (compareExtremes w best).isLT) AtMost.refl AtMost.trans
      (fun _ _ h => atMost_of_lt (Ordering.isLT_iff_eq_lt.mp h))
      (fun hx hy h => atMost_of_not_lt hu hx hy fun hlt => by rw [hlt] at h; cases h)
      v vs (fun _ hx => hx)
    rw [least?, Option.some.injEq] at h
    exact h ▸ hfold

theorem greatest?_spec (hu : Untied sharp values) (h : greatest? values = some a) :
    a ∈ values ∧ ∀ x ∈ values, AtMost sharp x a := by
  cases values with
  | nil => cases h
  | cons v vs =>
    have hge : ∀ {o : Ordering}, o.isGE = true ↔ o ≠ .lt := by decide
    have hfold := foldl_pick (P := (· ∈ v :: vs)) (R := fun x y => AtMost sharp y x)
      (fun w best => (compareExtremes w best).isGE) AtMost.refl (fun h h' => h'.trans h)
      (fun hx hy h => atMost_of_not_lt hu hx hy (hge.mp h))
      (fun _ _ h => atMost_of_lt (not_not.mp fun hn => by rw [hge.mpr hn] at h; cases h))
      v vs (fun _ hx => hx)
    rw [greatest?, Option.some.injEq] at h
    exact h ▸ hfold

/-! ### Any order -/

/-- What takes an extreme out of a list, so that two orders of the list give values neither of which
beats the other. -/
structure PicksExtreme (pick : List Value → Option Value) : Prop where
  nil : pick [] = none
  cons : ∀ v vs, ∃ a, pick (v :: vs) = some a
  even : ∀ {sharp values values' a b}, values.Perm values' → Untied sharp values →
    pick values = some a → pick values' = some b → AtMost sharp a b ∧ AtMost sharp b a

theorem Untied.perm (hu : Untied sharp values) (hp : values.Perm values') : Untied sharp values' :=
  fun n hn hx => hu n (hp.mem_iff.mpr hn) (hp.mem_iff.mpr hx)

theorem picksExtreme_least? : PicksExtreme least? where
  nil := rfl
  cons _ _ := ⟨_, rfl⟩
  even := fun hp hu ha hb => by
    obtain ⟨ham, ha⟩ := least?_spec hu ha
    obtain ⟨hbm, hb⟩ := least?_spec (hu.perm hp) hb
    exact ⟨ha _ (hp.mem_iff.mpr hbm), hb _ (hp.mem_iff.mp ham)⟩

theorem picksExtreme_greatest? : PicksExtreme greatest? where
  nil := rfl
  cons _ _ := ⟨_, rfl⟩
  even := fun hp hu ha hb => by
    obtain ⟨ham, ha⟩ := greatest?_spec hu ha
    obtain ⟨hbm, hb⟩ := greatest?_spec (hu.perm hp) hb
    exact ⟨hb _ (hp.mem_iff.mp ham), ha _ (hp.mem_iff.mpr hbm)⟩

/-- **An extreme has one rounded size for every order, and is one value if it does not tie.** -/
theorem PicksExtreme.perm {pick : List Value → Option Value} (h : PicksExtreme pick)
    (hp : values.Perm values') :
    ((pick values').getD .null).rounded = ((pick values).getD .null).rounded ∧
      (Untied (· = ((pick values).getD .null).rounded) values →
        (pick values').getD .null = (pick values).getD .null) := by
  cases values with
  | nil => rw [List.nil_perm.mp hp]; exact ⟨rfl, fun _ => rfl⟩
  | cons v vs =>
    cases values' with
    | nil => exact absurd hp.symm (List.nil_perm.not.mpr (List.cons_ne_nil v vs))
    | cons w ws =>
      obtain ⟨a, ha⟩ := h.cons v vs
      obtain ⟨b, hb⟩ := h.cons w ws
      rw [ha, hb, Option.getD_some, Option.getD_some]
      constructor
      · have hu : Untied (fun _ => False) (v :: vs) := fun _ _ _ hs => hs
        obtain ⟨hab, hba⟩ := h.even hp hu ha hb
        exact hba.rounded_eq hab
      · intro hu
        obtain ⟨hab, hba⟩ := h.even hp hu ha hb
        exact (hab.eq_of_sharp hba rfl).symm

end Value

end DeltaView
