import DeltaView.Hash
import DeltaView.Proofs.Table
import DeltaView.Proofs.Value.TotalOrder
import DeltaView.Proofs.Window.Entries
import Mathlib.Tactic.Linarith

/-!
# Values as keys

Values and row keys are looked up in three ways: by their order in a sorted map or a sorted list, by
their hash in a hash map, and by comparing them for equality. All three tell the same things apart.

* `Value.hashed_append_inj`, `RowKey.hashed_append_inj`: what is hashed of a value or a key
  determines it, whatever comes after.
* `MapStep.getElem?_sorted`, `MapStep.getElem?_hashed`: after any puts and erasures a sorted map and
  a hash map hold what the table holds that compares keys for equality.
* `Identifies`: a total order in which only identical things are even, with a hash that agrees and
  maps that agree.
* **`order_identifies`**: the orders of values and of row keys are such.
-/

namespace DeltaView

/-! ## What is hashed -/

namespace Value

mutual

/-- **What is hashed of a value determines it**, whatever comes after. -/
theorem hashed_append_inj : ∀ (a b : Value) {r s : List HashItem},
    a.hashed ++ r = b.hashed ++ s → a = b ∧ r = s
  | .array as, b, r, s, h => by
    cases b with
    | array bs =>
      simp only [hashed, List.cons_append, List.cons.injEq, HashItem.count.injEq, true_and] at h
      obtain ⟨rfl, rfl⟩ := hashedItems_append_inj as bs h.1 h.2
      exact ⟨rfl, rfl⟩
    | _ => simp [hashed, Kind.rank] at h
  | .object as, b, r, s, h => by
    cases b with
    | object bs =>
      simp only [hashed, List.cons_append, List.cons.injEq, HashItem.count.injEq, true_and] at h
      obtain ⟨rfl, rfl⟩ := hashedFields_append_inj as bs h.1 h.2
      exact ⟨rfl, rfl⟩
    | _ => simp [hashed, Kind.rank] at h
  | .null, b, r, s, h => by cases b <;> simp_all [hashed, Kind.rank]
  | .bool a, b, r, s, h => by
    cases b with
    | bool b => cases a <;> cases b <;> simp_all [hashed]
    | _ => simp [hashed, Kind.rank] at h
  | .int a, b, r, s, h => by
    cases b with
    | int b =>
      simp only [hashed, List.cons_append, List.nil_append, List.cons.injEq, HashItem.word.injEq,
        true_and] at h
      exact ⟨congrArg int (congrArg Int64.ofUInt64 h.1), h.2⟩
    | _ => simp [hashed, Kind.rank] at h
  | .float a, b, r, s, h => by
    cases b with
    | float b =>
      simp only [hashed, List.cons_append, List.nil_append, List.cons.injEq, HashItem.word.injEq,
        true_and] at h
      exact ⟨congrArg float (congrArg Double.mk h.1), h.2⟩
    | _ => simp [hashed, Kind.rank] at h
  | .string a, b, r, s, h => by
    cases b with
    | string b => simpa [hashed] using h
    | _ => simp [hashed, Kind.rank] at h

theorem hashedItems_append_inj : ∀ (as bs : List Value) {r s : List HashItem},
    as.length = bs.length → hashedItems as ++ r = hashedItems bs ++ s → as = bs ∧ r = s
  | [], [], _, _, _, h => ⟨rfl, h⟩
  | [], _ :: _, _, _, hlen, _ => absurd hlen (by simp)
  | _ :: _, [], _, _, hlen, _ => absurd hlen (by simp)
  | a :: as, b :: bs, r, s, hlen, h => by
    rw [hashedItems, hashedItems, List.append_assoc, List.append_assoc] at h
    obtain ⟨rfl, hrest⟩ := hashed_append_inj a b h
    obtain ⟨rfl, rfl⟩ := hashedItems_append_inj as bs (Nat.succ.inj hlen) hrest
    exact ⟨rfl, rfl⟩

theorem hashedFields_append_inj : ∀ (as bs : List (String × Value)) {r s : List HashItem},
    as.length = bs.length → hashedFields as ++ r = hashedFields bs ++ s → as = bs ∧ r = s
  | [], [], _, _, _, h => ⟨rfl, h⟩
  | [], _ :: _, _, _, hlen, _ => absurd hlen (by simp)
  | _ :: _, [], _, _, hlen, _ => absurd hlen (by simp)
  | (m, a) :: as, (n, b) :: bs, r, s, hlen, h => by
    rw [hashedFields, hashedFields, List.cons_append, List.cons_append, List.append_assoc,
      List.append_assoc] at h
    obtain ⟨hname, hvalue⟩ := List.cons.inj h
    obtain rfl := HashItem.text.inj hname
    obtain ⟨rfl, hrest⟩ := hashed_append_inj a b hvalue
    obtain ⟨rfl, rfl⟩ := hashedFields_append_inj as bs (Nat.succ.inj hlen) hrest
    exact ⟨rfl, rfl⟩

end

theorem hashed_inj {a b : Value} (h : a.hashed = b.hashed) : a = b :=
  (hashed_append_inj a b (congrArg (· ++ []) h)).1

end Value

namespace RowKey

mutual

theorem hashed_append_inj : ∀ (a b : RowKey) {r s : List HashItem},
    a.hashed ++ r = b.hashed ++ s → a = b ∧ r = s
  | .plain v, b, r, s, h => by
    cases b with
    | plain w =>
      obtain ⟨rfl, rfl⟩ := Value.hashed_append_inj v w (List.cons.inj h).2
      exact ⟨rfl, rfl⟩
    | joined _ _ => simp [hashed] at h
  | .joined l l', b, r, s, h => by
    cases b with
    | plain _ => simp [hashed] at h
    | joined m m' =>
      rw [hashed, hashed, List.cons_append, List.cons_append, List.append_assoc,
        List.append_assoc] at h
      obtain ⟨rfl, hright⟩ := hashedSide_append_inj l m (List.cons.inj h).2
      obtain ⟨rfl, rfl⟩ := hashedSide_append_inj l' m' hright
      exact ⟨rfl, rfl⟩

theorem hashedSide_append_inj : ∀ (a b : Option RowKey) {r s : List HashItem},
    hashedSide a ++ r = hashedSide b ++ s → a = b ∧ r = s
  | none, b, r, s, h => by cases b <;> simp_all [hashedSide]
  | some k, b, r, s, h => by
    cases b with
    | none => simp [hashedSide] at h
    | some l =>
      obtain ⟨rfl, rfl⟩ := hashed_append_inj k l (List.cons.inj h).2
      exact ⟨rfl, rfl⟩

end

theorem hashed_inj {a b : RowKey} (h : a.hashed = b.hashed) : a = b :=
  (hashed_append_inj a b (congrArg (· ++ []) h)).1

end RowKey

/-! ## Maps -/

/-- What is done to a map. -/
inductive MapStep (κ α : Type) where
  | put (k : κ) (a : α)
  | erase (k : κ)

namespace MapStep

variable {κ α : Type}

/-- A table that compares keys for equality. -/
def table [DecidableEq κ] (steps : List (MapStep κ α)) : Table κ α :=
  steps.foldl (fun t s => match s with
    | put k a => t.put k a
    | erase k => t.erase k) []

/-- A map that is searched by the order of its keys. -/
def sorted (cmp : κ → κ → Ordering) (steps : List (MapStep κ α)) : Std.TreeMap κ α cmp :=
  steps.foldl (fun t s => match s with
    | put k a => t.insert k a
    | erase k => t.erase k) ∅

/-- A map that is searched by the hashes of its keys. -/
def hashed [BEq κ] [Hashable κ] (steps : List (MapStep κ α)) : Std.HashMap κ α :=
  steps.foldl (fun t s => match s with
    | put k a => t.insert k a
    | erase k => t.erase k) ∅

section

variable [DecidableEq κ]

theorem table_concat (steps : List (MapStep κ α)) (s : MapStep κ α) :
    table (steps ++ [s]) = match s with
      | put k a => (table steps).put k a
      | erase k => (table steps).erase k := List.foldl_concat ..

theorem keysNodup_table (steps : List (MapStep κ α)) : (table steps).KeysNodup := by
  induction steps using List.reverseRecOn with
  | nil => exact Table.keysNodup_nil
  | append_singleton steps s ih =>
    rw [table_concat]
    cases s with
    | put k a => exact Table.keysNodup_put ih
    | erase k => exact Table.keysNodup_erase ih

/-- **A sorted map finds what the table holds.** -/
theorem getElem?_sorted (cmp : κ → κ → Ordering) [Std.TransCmp cmp] [Std.LawfulEqCmp cmp]
    (steps : List (MapStep κ α)) (k : κ) : (sorted cmp steps)[k]? = (table steps).get? k := by
  induction steps using List.reverseRecOn with
  | nil => simp [sorted, table, Table.get?]
  | append_singleton steps s ih =>
    have hn := keysNodup_table steps
    rw [table_concat, sorted, List.foldl_concat]
    cases s with
    | put l a => simp [Std.TreeMap.getElem?_insert, ← ih, sorted]
    | erase l => simp [Std.TreeMap.getElem?_erase, Table.get?_erase hn, ← ih, sorted]

/-- **A hash map finds what the table holds.** -/
theorem getElem?_hashed [Hashable κ] (steps : List (MapStep κ α)) (k : κ) :
    (hashed steps)[k]? = (table steps).get? k := by
  induction steps using List.reverseRecOn with
  | nil => simp [hashed, table, Table.get?]
  | append_singleton steps s ih =>
    have hn := keysNodup_table steps
    rw [table_concat, hashed, List.foldl_concat]
    cases s with
    | put l a => simp [Std.HashMap.getElem?_insert, ← ih, hashed]
    | erase l => simp [Std.HashMap.getElem?_erase, Table.get?_erase hn, ← ih, hashed]

end

end MapStep

/-! ## Orders that identify -/

/-- A total order in which only identical things are even, and with which a hash and the maps that
are kept by the order or by hashes agree. -/
structure Identifies {κ : Type} [DecidableEq κ] [Hashable κ] (cmp : κ → κ → Ordering)
    (hashed : κ → List HashItem) : Prop where
  swap : ∀ a b, cmp b a = (cmp a b).swap
  antisymm : ∀ a b, (cmp a b).isLE → (cmp b a).isLE → a = b
  trans : ∀ a b c, (cmp a b).isLE → (cmp b c).isLE → (cmp a c).isLE
  total : ∀ a b, (cmp a b).isLE ∨ (cmp b a).isLE
  eq_iff : ∀ a b, cmp a b = .eq ↔ a = b
  hashed_iff : ∀ a b, hashed a = hashed b ↔ a = b
  lookup : ∀ (α : Type) (steps : List (MapStep κ α)) (k : κ),
    (MapStep.sorted cmp steps)[k]? = (MapStep.table steps).get? k ∧
      (MapStep.hashed steps)[k]? = (MapStep.table steps).get? k

theorem Identifies.of_transCmp {κ : Type} [DecidableEq κ] [Hashable κ] {cmp : κ → κ → Ordering}
    [Std.TransCmp cmp] [Std.LawfulEqCmp cmp] {hashed : κ → List HashItem}
    (hinj : ∀ a b, hashed a = hashed b → a = b) : Identifies cmp hashed where
  swap _ _ := Std.OrientedCmp.eq_swap
  antisymm a b hab hba := Std.LawfulEqCmp.eq_of_compare (Std.OrientedCmp.isLE_antisymm hab hba)
  trans _ _ _ := Std.TransCmp.isLE_trans
  total a b := by
    have hswap : cmp b a = (cmp a b).swap := Std.OrientedCmp.eq_swap
    rw [hswap]
    cases cmp a b <;> simp
  eq_iff _ _ := ⟨Std.LawfulEqCmp.eq_of_compare, fun h => h ▸ Std.ReflCmp.compare_self⟩
  hashed_iff a b := ⟨hinj a b, congrArg hashed⟩
  lookup α steps k := ⟨MapStep.getElem?_sorted cmp steps k, MapStep.getElem?_hashed steps k⟩

/-- **The orders of values and of row keys are total and tell the same things apart as equality,
hashes and look-ups do**: two values are even just if they are identical, floats by their bits, with
integers and floats in one order and arrays and objects compared throughout; so a search by halving
in a ranking finds a row just if it is there. -/
theorem order_identifies :
    Identifies Value.cmp Value.hashed ∧ Identifies RowKey.cmp RowKey.hashed ∧
      (∀ x y : Double, Value.cmp (.float x) (.float y) = .eq ↔ x.bits = y.bits) ∧
      ∀ (window : Window) (calls : List Ranking.Call) (row : Row),
        let r := Ranking.run Value.cmp (Ranking.empty window) calls
        (∃ p, Ranking.search Value.cmp r.elements row = .found p) ↔
          row.unordered ∈ r.entries := by
  refine ⟨.of_transCmp fun a b => Value.hashed_inj, .of_transCmp fun a b => RowKey.hashed_inj,
    fun x y => ?_, fun window calls row => ?_⟩
  · rw [Value.cmp_eq_iff, Value.float.injEq]
    exact ⟨congrArg Double.bits, congrArg Double.mk⟩
  · exact Ranking.search_found_iff (Ranking.run_sorted Value.cmp window calls).1

end DeltaView
