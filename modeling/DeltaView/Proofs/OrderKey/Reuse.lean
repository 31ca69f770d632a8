import DeltaView.Proofs.OrderKey.Between

/-!
# Keys that can be built upon again

The lowest integer part is no key by itself, since nothing fits below it. It is nevertheless what is
made below the integer part right above it, and there only: every other key that is made is accepted
again, so that there is room on both of its sides.

* `not_lt_smallest`: nothing of the shape of a key is below the lowest integer part.
* `previous?_eq_smallest`, `before_eq_smallest`: the lowest integer part is made below the one right
  above it and below no other key.
* **`keyBetween_reusable`**: a key that was made can be built upon, unless it was asked for below
  that integer part.
-/

namespace DeltaView

namespace OrderKey

/-- The integer part right above the lowest one, which is the lowest that is a key by itself. -/
def lowestWhole : String := "A00000000000000000000000001"

variable {b cs ds es w : List Char}

/-! ## The lowest integer part -/

/-- No run is below one that is not longer and of which all digits are the lowest. -/
theorem not_lt_of_lowest (hall : ∀ c ∈ ds, c = '0') (hes : Digits es)
    (hlen : ds.length ≤ es.length) : ¬ es < ds := by
  induction ds generalizing es with
  | nil => exact List.not_lt_nil es
  | cons d ds ih =>
    cases es with
    | nil => simp at hlen
    | cons e es =>
      obtain ⟨rfl, hrest⟩ := List.forall_mem_cons.mp hall
      obtain ⟨n, hn, rfl⟩ := exists_digit (hes e List.mem_cons_self)
      rw [List.cons_lt_cons_iff, not_or, not_and]
      constructor
      · intro hlt
        exact Nat.not_lt_zero n ((digit_lt_digit hn (by decide : 0 < 62)).mp hlt)
      · intro _
        exact ih hrest hes.tail (Nat.le_of_succ_le_succ hlen)

/-- **Nothing of the shape of a key is below the lowest integer part.** -/
theorem not_lt_smallest (hcs : Shaped cs) : ¬ cs < smallest := by
  obtain ⟨w, f, rfl, hw, hf⟩ := hcs
  cases w with
  | nil => exact hw.elim
  | cons head digits =>
    obtain ⟨hhead, hlen, hdigits⟩ := hw
    rw [smallest, List.cons_append, List.cons_lt_cons_iff, not_or, not_and]
    constructor
    · have hascii := ascii_of_isAlphanum (isAlphanum_of_isAlpha hhead)
      revert hhead
      refine ascii_cases hascii ?_
      decide +kernel
    · rintro rfl
      refine not_lt_of_lowest (fun c hc => List.eq_of_mem_replicate hc)
        (Digits.append hdigits hf.digits) ?_
      have hcount : digitCount 'A' = 26 := by decide
      simp [hlen, hcount]

/-! ## Counting down to the lowest integer part -/

/-- What counting down does with the digit before a run: it keeps it, starts again from the highest
digit, or goes one down. -/
theorem decrement_cons_cases {x : Nat} {borrow : Bool} (hx : x < 62)
    (h : decrement (digit x :: ds) = .ok (es, borrow)) :
    ∃ rest borrowed, decrement ds = .ok (rest, borrowed) ∧
      ((borrowed = false ∧ es = digit x :: rest ∧ borrow = false) ∨
        (borrowed = true ∧ x = 0 ∧ es = 'z' :: rest ∧ borrow = true) ∨
        (borrowed = true ∧ 0 < x ∧ es = digit (x - 1) :: rest ∧ borrow = false)) := by
  rw [decrement] at h
  obtain ⟨⟨rest, borrowed⟩, hrest, h⟩ := bind_eq_ok.mp h
  refine ⟨rest, borrowed, hrest, ?_⟩
  cases borrowed with
  | false =>
    cases h
    exact Or.inl ⟨rfl, rfl, rfl⟩
  | true =>
    change (digitValue (digit x) >>= fun x => if x = 0 then Except.ok (digit 61 :: rest, true)
      else Except.ok (digit (x - 1) :: rest, false)) = _ at h
    rw [(digit_spec x hx).2.1] at h
    change (if x = 0 then _ else _) = _ at h
    split_ifs at h with h0
    · cases h
      exact Or.inr (Or.inl ⟨rfl, h0, rfl, rfl⟩)
    · cases h
      exact Or.inr (Or.inr ⟨rfl, Nat.pos_of_ne_zero h0, rfl, rfl⟩)

/-- Counting down that starts again leaves the highest digits. -/
theorem highest_of_borrow (hds : Digits ds) (h : decrement ds = .ok (es, true)) :
    ∀ c ∈ es, c = 'z' := by
  induction ds generalizing es with
  | nil =>
    cases h
    simp
  | cons d ds ih =>
    obtain ⟨x, hx, rfl⟩ := exists_digit (hds d List.mem_cons_self)
    obtain ⟨rest, _, hrest, ⟨-, -, hb⟩ | ⟨rfl, -, rfl, -⟩ | ⟨-, -, -, hb⟩⟩ :=
      decrement_cons_cases hx h
    · cases hb
    · exact List.forall_mem_cons.mpr ⟨rfl, ih hds.tail hrest⟩
    · cases hb

/-- **Only a one after zeros counts down to zeros.** -/
theorem decrement_eq_lowest (hds : Digits ds) (h : decrement ds = .ok (es, false))
    (hall : ∀ c ∈ es, c = '0') : ∃ zeros, ds = zeros ++ ['1'] ∧ ∀ c ∈ zeros, c = '0' := by
  induction ds generalizing es with
  | nil => cases h
  | cons d ds ih =>
    obtain ⟨x, hx, rfl⟩ := exists_digit (hds d List.mem_cons_self)
    obtain ⟨rest, _, hrest, ⟨rfl, rfl, -⟩ | ⟨-, -, -, hb⟩ | ⟨rfl, hpos, rfl, -⟩⟩ :=
      decrement_cons_cases hx h
    · obtain ⟨hzero, hall⟩ := List.forall_mem_cons.mp hall
      obtain ⟨zeros, rfl, hzeros⟩ := ih hds.tail hrest hall
      exact ⟨digit x :: zeros, rfl, List.forall_mem_cons.mpr ⟨hzero, hzeros⟩⟩
    · cases hb
    · obtain ⟨hzero, hall⟩ := List.forall_mem_cons.mp hall
      have hx1 : x = 1 := by
        by_contra hne
        exact digit_ne_zero (by omega : 0 < x - 1) (by omega) hzero
      -- The borrow left the highest digits behind the one, of which none is a zero.
      have hrestnil : rest = [] := List.eq_nil_iff_forall_not_mem.mpr fun c hc =>
        absurd ((highest_of_borrow hds.tail hrest c hc).symm.trans (hall c hc)) (by decide)
      have htail : Digits ds := hds.tail
      obtain ⟨es', _, hes', -, hlen, -⟩ := decrement_spec htail
      obtain ⟨rfl, -⟩ := Prod.mk.inj (Except.ok.inj (hrest.symm.trans hes'))
      rw [hrestnil] at hlen
      refine ⟨[], ?_, by simp⟩
      rw [hx1, List.length_eq_zero_iff.mp hlen.symm]
      rfl

/-- **The lowest integer part comes before the one right above it only.** -/
theorem previous?_eq_smallest (hw : IsWhole w) (h : previous? w = .ok (some smallest)) :
    w = lowestWhole.toList := by
  cases w with
  | nil => exact hw.elim
  | cons head ds =>
    obtain ⟨hhead, hlen, hds⟩ := hw
    rw [previous?] at h
    obtain ⟨⟨es, borrow⟩, hes, h⟩ := bind_eq_ok.mp h
    cases borrow with
    | false =>
      cases h
      obtain ⟨zeros, rfl, hzeros⟩ := decrement_eq_lowest hds hes fun c hc =>
        List.eq_of_mem_replicate hc
      have hcount : digitCount 'A' = 26 := by decide
      have hzeros : zeros = List.replicate 25 '0' := by
        refine List.eq_replicate_iff.mpr ⟨?_, hzeros⟩
        rw [hcount, List.length_append, List.length_singleton] at hlen
        omega
      rw [hzeros]
      decide
    | true =>
      change (if head = 'a' then _ else if head = 'A' then _ else _) = _ at h
      split_ifs at h with ha hA
      · exact absurd h (by decide)
      · exact absurd h (by decide)
      · -- One digit more was asked for, which is the highest one.
        obtain ⟨hhead', htail⟩ := List.cons.inj (Option.some.inj (Except.ok.inj h))
        rw [hhead', if_pos (by decide)] at htail
        have hmem : 'z' ∈ List.replicate 26 '0' := htail ▸ List.mem_append_right es (by simp)
        exact absurd (List.eq_of_mem_replicate hmem) (by decide)

/-- The lowest integer part is made below no key but the integer part right above it. -/
theorem before_eq_smallest (hb : Shaped b) (h : before b = .ok smallest) :
    b = lowestWhole.toList := by
  obtain ⟨w, f, rfl, hw, hf⟩ := hb
  rw [before, hw.split_append] at h
  change (if w = smallest then _ else if !f.isEmpty then _ else _) = _ at h
  split_ifs at h with hsmall hfrac
  · obtain ⟨m, hm, hwm⟩ := bind_eq_ok.mp h
    cases f with
    | nil => cases hm
    | cons c f =>
      obtain ⟨m', hm', -, hpos, -⟩ := midpoint_spec .nil hf (List.nil_lt_cons c f)
      obtain rfl : m = m' := Except.ok.inj (hm.symm.trans hm')
      have hnil : w ++ m = w ++ [] := by simpa [hsmall] using Except.ok.inj hwm
      exact absurd (List.append_cancel_left hnil) (ne_nil_of_lt hpos)
  · exact absurd (Except.ok.inj h) hsmall
  · have hfnil : f = [] := by simpa using hfrac
    obtain ⟨v, hv, hvs⟩ := bind_eq_ok.mp h
    cases v with
    | none => cases hvs
    | some v =>
      obtain rfl : v = smallest := Except.ok.inj hvs
      rw [hfnil, List.append_nil]
      exact previous?_eq_smallest hw hv

/-! ## Keys beside keys -/

section

variable {low high : Option String} {key : String}

/-- A key made between two others has the shape of one. -/
theorem keyBetween_spec (hlow : ∀ x ∈ low, WellFormed x) (hhigh : ∀ y ∈ high, WellFormed y)
    (hlt : ∀ x ∈ low, ∀ y ∈ high, bytes x < bytes y) :
    ∃ key, keyBetween low high = .ok key ∧ Shaped key.toList ∧ (∀ x ∈ low, bytes x < bytes key) ∧
      ∀ y ∈ high, bytes key < bytes y := by
  obtain ⟨k, hk, -⟩ := bytesBetween_spec hlow hhigh hlt
  have hkey : keyBetween low high = .ok (String.ofList k) := map_eq_ok.mpr ⟨k, hk, rfl⟩
  exact ⟨_, hkey, keyBetween_shaped (fun x hx => (hlow x hx).shaped)
    (fun y hy => (hhigh y hy).shaped) hlt hkey⟩

/-- The lowest integer part is made only where a key below the one right above it is asked for. -/
theorem keyBetween_eq_smallest (hlow : ∀ x ∈ low, WellFormed x) (hhigh : ∀ y ∈ high, WellFormed y)
    (hlt : ∀ x ∈ low, ∀ y ∈ high, bytes x < bytes y) (h : keyBetween low high = .ok key)
    (hkey : key.toList = smallest) : low = none ∧ high = some lowestWhole := by
  cases low with
  | some x =>
    obtain ⟨hshaped, hbelow, -⟩ := keyBetween_shaped (fun x hx => (hlow x hx).shaped)
      (fun y hy => (hhigh y hy).shaped) hlt h
    have hx := (hlow x rfl).shaped
    have hxk := hbelow x rfl
    rw [bytes_eq_toList hx.digits, bytes_eq_toList hshaped.digits, hkey] at hxk
    exact absurd hxk (not_lt_smallest hx)
  | none =>
    obtain ⟨k, hk, rfl⟩ := map_eq_ok.mp h
    rw [String.toList_ofList] at hkey
    subst hkey
    cases high with
    | none => exact absurd hk (by decide)
    | some y =>
      have hy := hhigh y rfl
      rw [bytesBetween_below, (wellFormed_iff.mp hy).2, bytes_eq_toList hy.shaped.digits] at hk
      have hyl := before_eq_smallest hy.shaped hk
      exact ⟨rfl, congrArg some (String.toList_inj.mp hyl)⟩

/-- **A key that was made can be built upon.** One is made for every pair of bounds in order, and
unless it was asked for below the integer part right above the lowest one, it is accepted as a bound
again and there is room for another key on either side of it. -/
theorem keyBetween_reusable (low high : Option String) (hlow : ∀ x ∈ low, WellFormed x)
    (hhigh : ∀ y ∈ high, WellFormed y) (hlt : ∀ x ∈ low, ∀ y ∈ high, bytes x < bytes y) :
    ∃ key, keyBetween low high = .ok key ∧
      (validate key = .ok () ↔ ¬ (low = none ∧ high = some lowestWhole)) ∧
      (validate key = .ok () → WellFormed key ∧
        (∀ a, (∀ x ∈ a, WellFormed x ∧ bytes x < bytes key) →
          ∃ k, keyBetween a (some key) = .ok k ∧ (∀ x ∈ a, bytes x < bytes k) ∧
            bytes k < bytes key) ∧
        ∀ b, (∀ y ∈ b, WellFormed y ∧ bytes key < bytes y) →
          ∃ k, keyBetween (some key) b = .ok k ∧ bytes key < bytes k ∧
            ∀ y ∈ b, bytes k < bytes y) := by
  obtain ⟨key, hkey, hshaped, -⟩ := keyBetween_spec hlow hhigh hlt
  have hvalid : validate key = .ok () ↔ key.toList ≠ smallest := by
    constructor
    · intro h
      exact (wellFormed_iff.mpr ⟨hshaped.digits, h⟩).ne_smallest
    · intro h
      exact (wellFormed_iff.mp ⟨hshaped, h⟩).2
  refine ⟨key, hkey, hvalid.trans (not_congr ?_), ?_⟩
  · constructor
    · exact keyBetween_eq_smallest hlow hhigh hlt hkey
    · rintro ⟨rfl, rfl⟩
      have hmade : keyBetween none (some lowestWhole) = .ok (String.ofList smallest) := by
        decide +kernel
      rw [← Except.ok.inj (hmade.symm.trans hkey), String.toList_ofList]
  · intro h
    have hwell : WellFormed key := wellFormed_iff.mpr ⟨hshaped.digits, h⟩
    have hself : ∀ x ∈ some key, WellFormed x := by
      rintro _ ⟨⟩
      exact hwell
    refine ⟨hwell, ?_, ?_⟩
    · intro a ha
      obtain ⟨k, hk, -, hbelow, habove⟩ := keyBetween_spec (fun x hx => (ha x hx).1) hself
        (by rintro x hx _ ⟨⟩; exact (ha x hx).2)
      exact ⟨k, hk, hbelow, habove key rfl⟩
    · intro b hb
      obtain ⟨k, hk, -, hbelow, habove⟩ := keyBetween_spec hself (fun y hy => (hb y hy).1)
        (by rintro _ ⟨⟩ y hy; exact (hb y hy).2)
      exact ⟨k, hk, hbelow key rfl, habove⟩

/-- The second integer part that is a key has the first below it, on which can be built again. -/
theorem keyBetween_reusable_below_second :
    WellFormed "A00000000000000000000000002" ∧
      ∃ key, keyBetween none (some "A00000000000000000000000002") = .ok key ∧ WellFormed key := by
  have hhigh : WellFormed "A00000000000000000000000002" := by decide +kernel
  obtain ⟨key, hkey, hvalid, hagain⟩ := keyBetween_reusable none
    (some "A00000000000000000000000002") (by simp) (by rintro _ ⟨⟩; exact hhigh) (by simp)
  exact ⟨hhigh, key, hkey, (hagain (hvalid.mpr (by decide))).1⟩

/-- Below the lowest integer part that is a key there is made the one that is none. -/
theorem keyBetween_reusable_fails :
    WellFormed lowestWhole ∧ ∃ key, keyBetween none (some lowestWhole) = .ok key ∧
      validate key = .error (.malformed key) ∧
      keyBetween none (some key) = .error (.malformed key) ∧
      keyBetween (some key) none = .error (.malformed key) := by
  refine ⟨by decide +kernel, String.ofList smallest, ?_, ?_, ?_, ?_⟩ <;> decide +kernel

end

end OrderKey

end DeltaView
