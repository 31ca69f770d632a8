import DeltaView.Proofs.Delta.Total
import DeltaView.Proofs.Table
import Mathlib.Data.List.Induction

/-!
# The slots of a consolidation

A consolidation goes through a list of entries once, with a slot for every item that has occurred,
and then puts the totals back at the places where the items first stood.

* `Reads s d`: what the slots are once the entries of `d` are read. `Reads.read_of_mem` and
  `Reads.read_of_not_mem` are the step, and `reads_ofEntries` is the run.
* `kept_spec`, `kept_eq`: which total is put back at which place.
* **`Delta.consolidate_eq`**: what comes out are the items without repetition, in the order of first
  occurrence, each with its total, and without those whose total is zero.
-/

namespace DeltaView

/-! ## First occurrences -/

section FirstOccurrence

variable {α : Type} [DecidableEq α]

theorem eraseDups_concat (l : List α) (a : α) :
    (l ++ [a]).eraseDups = if a ∈ l then l.eraseDups else l.eraseDups ++ [a] := by
  rw [List.eraseDups_append]
  by_cases h : a ∈ l <;> simp [List.removeAll, List.eraseDups_cons, h]

theorem idxOf_concat_self {l : List α} {a : α} (h : a ∉ l) : (l ++ [a]).idxOf a = l.length := by
  rw [List.idxOf_append_of_notMem h, List.idxOf_cons_self, Nat.add_zero]

/-- Without repetition, items stand in the order of their first occurrences. -/
theorem pairwise_eraseDups (l : List α) :
    l.eraseDups.Pairwise fun a b => l.idxOf a < l.idxOf b := by
  induction l using List.reverseRecOn with
  | nil => exact List.Pairwise.nil
  | append_singleton l a ih =>
    have hl : l.eraseDups.Pairwise fun b c => (l ++ [a]).idxOf b < (l ++ [a]).idxOf c := by
      refine ih.imp_of_mem fun {b c} hb hc hbc => ?_
      rwa [List.idxOf_append_of_mem (List.mem_eraseDups.mp hb),
        List.idxOf_append_of_mem (List.mem_eraseDups.mp hc)]
    rw [eraseDups_concat]
    split
    · exact hl
    · rename_i ha
      refine List.pairwise_append.mpr ⟨hl, List.pairwise_singleton _ _, fun b hb c hc => ?_⟩
      obtain rfl := List.mem_singleton.mp hc
      have hbl : b ∈ l := List.mem_eraseDups.mp hb
      rw [List.idxOf_append_of_mem hbl, idxOf_concat_self ha]
      exact List.idxOf_lt_length_of_mem hbl

theorem idxOf?_concat {l : List α} {a : α} (h : a ∉ l) (b : α) :
    (l ++ [a]).idxOf? b = if a = b then some l.length else l.idxOf? b := by
  induction l with
  | nil => simp [List.idxOf?_cons]
  | cons c l ih =>
    obtain ⟨hc, hl⟩ := not_or.mp (List.mem_cons.not.mp h)
    rw [List.cons_append, List.idxOf?_cons, ih hl, List.idxOf?_cons]
    by_cases hcb : c = b
    · have hab : a ≠ b := fun e => hc (e.trans hcb.symm)
      simp [hcb, hab]
    · by_cases hab : a = b <;> simp [hcb, hab]

omit [DecidableEq α] in
theorem zip_map_zipIdx {β : Type} (l : List α) (f : α × Nat → β) :
    l.zip (l.zipIdx.map f) = l.zipIdx.map fun p => (p.1, f p) := by
  calc l.zip (l.zipIdx.map f) = (l.zipIdx.map Prod.fst).zip (l.zipIdx.map f) := by
        rw [List.zipIdx_map_fst]
    _ = l.zipIdx.map fun p => (p.1, f p) := List.zip_map'

/-- An item is kept where it stands first. -/
theorem filterMap_first (l : List α) :
    (l.zipIdx.filterMap fun (a, place) => if l.idxOf a = place then some a else none) =
      l.eraseDups := by
  induction l using List.reverseRecOn with
  | nil => rfl
  | append_singleton l a ih =>
    have hold : (l.zipIdx.filterMap fun (b, place) =>
        if (l ++ [a]).idxOf b = place then some b else none) = l.eraseDups := by
      rw [← ih]
      refine List.filterMap_congr fun p hp => ?_
      dsimp only
      rw [List.idxOf_append_of_mem (List.fst_mem_of_mem_zipIdx hp)]
    rw [List.zipIdx_append, List.filterMap_append, hold, eraseDups_concat]
    by_cases ha : a ∈ l
    · have hne : l.idxOf a ≠ l.length := (List.idxOf_lt_length_of_mem ha).ne
      simp [ha, List.idxOf_append_of_mem ha, hne]
    · simp [ha, idxOf_concat_self ha]

end FirstOccurrence

namespace Slots

open Delta (total)

variable {α M : Type} [DecidableEq α]

/-! ## Reading -/

theorem ofEntries_concat [Add M] (d : List (α × M)) (a : α) (m : M) :
    ofEntries (d ++ [(a, m)]) = (ofEntries d).read d.length a m := by
  simp [ofEntries, List.zipIdx_append]

variable [CommRing M]

/-- What the slots are once the entries of a delta are read: the slots go by the items without
repetition, each with its total so far and the place where it first stood. -/
structure Reads (s : Slots α M) (d : Delta α M) : Prop where
  positions : ∀ a, s.positions.get? a = (d.map (·.1)).eraseDups.idxOf? a
  totals : s.totals = (d.map (·.1)).eraseDups.map (total · d)
  firsts : s.firsts = (d.map (·.1)).eraseDups.map (d.map (·.1)).idxOf

variable {s : Slots α M} {d : Delta α M} {a : α} {m : M}

theorem Reads.nil : Reads ({} : Slots α M) [] := ⟨fun _ => rfl, rfl, rfl⟩

theorem total_concat (b : α) :
    total b (d ++ [(a, m)]) = total b d + if a = b then m else 0 := by
  rw [Delta.total_append]
  simp [total]

omit [CommRing M] in
/-- Adding at the slot of an item changes the total of that item. -/
theorem modify_map_idxOf {l : List α} (h : l.Nodup) {slot : Nat} (ha : l.idxOf? a = some slot)
    (f : α → M) (g : M → M) :
    (l.map f).modify slot g = l.map fun b => if a = b then g (f b) else f b := by
  obtain ⟨hslot, hget, -⟩ := List.idxOf?_eq_some_iff.mp ha
  refine List.ext_getElem (by simp) fun i hi hi' => ?_
  have hil : i < l.length := by simpa using hi'
  have hiff : slot = i ↔ a = l[i] := by
    rw [← hget]
    exact (h.getElem_inj_iff).symm
  simp only [List.getElem_modify, List.getElem_map, hiff]

theorem firsts_concat {l : List α} :
    l.eraseDups.map (l ++ [a]).idxOf = l.eraseDups.map l.idxOf :=
  List.map_congr_left fun _ hb => List.idxOf_append_of_mem (List.mem_eraseDups.mp hb)

/-- The entry of an item that has its slot. -/
theorem Reads.read_of_mem (h : Reads s d) (ha : a ∈ d.map (·.1)) (m : M) :
    Reads (s.read d.length a m) (d ++ [(a, m)]) := by
  have hitems : ((d ++ [(a, m)]).map (·.1)).eraseDups = (d.map (·.1)).eraseDups := by
    rw [List.map_append, List.map_singleton, eraseDups_concat, if_pos ha]
  obtain ⟨slot, hslot⟩ : ∃ slot, (d.map (·.1)).eraseDups.idxOf? a = some slot :=
    Option.ne_none_iff_exists'.mp fun hno =>
      List.idxOf?_eq_none_iff.mp hno (List.mem_eraseDups.mpr ha)
  have hread : s.read d.length a m = { s with totals := s.totals.modify slot (· + m) } := by
    rw [Slots.read, h.positions, hslot]
  rw [hread]
  refine ⟨fun b => ?_, ?_, ?_⟩
  · rw [hitems, h.positions]
  · rw [hitems, h.totals, modify_map_idxOf (nodup_eraseDups _) hslot]
    refine List.map_congr_left fun b _ => ?_
    rw [total_concat]
    split <;> simp
  · rw [hitems, h.firsts, List.map_append, List.map_singleton, firsts_concat]

/-- The entry of an item that has not occurred yet. -/
theorem Reads.read_of_not_mem (h : Reads s d) (ha : a ∉ d.map (·.1)) (m : M) :
    Reads (s.read d.length a m) (d ++ [(a, m)]) := by
  have hitems : ((d ++ [(a, m)]).map (·.1)).eraseDups = (d.map (·.1)).eraseDups ++ [a] := by
    rw [List.map_append, List.map_singleton, eraseDups_concat, if_neg ha]
  have ha' : a ∉ (d.map (·.1)).eraseDups := fun hmem => ha (List.mem_eraseDups.mp hmem)
  have hread : s.read d.length a m =
      { positions := s.positions.put a s.totals.length
        totals := s.totals ++ [m]
        firsts := s.firsts ++ [d.length] } := by
    rw [Slots.read, h.positions, List.idxOf?_eq_none_iff.mpr ha']
  rw [hread]
  refine ⟨fun b => ?_, ?_, ?_⟩
  · rw [hitems, Table.get?_put, h.positions, idxOf?_concat ha', h.totals, List.length_map]
  · rw [hitems, List.map_append, h.totals, List.map_singleton, total_concat, if_pos rfl,
      Delta.total_eq_zero_of_not_mem fun e he hea => ha (List.mem_map.mpr ⟨e, he, hea⟩), zero_add]
    refine congrArg (· ++ [m]) (List.map_congr_left fun b hb => ?_)
    rw [total_concat, if_neg fun e : a = b => ha' (e ▸ hb), add_zero]
  · rw [hitems, h.firsts, List.map_append, List.map_append, List.map_singleton, List.map_singleton,
      firsts_concat, idxOf_concat_self ha, List.length_map]

/-- **The slots once all entries are read.** -/
theorem reads_ofEntries (d : Delta α M) : Reads (ofEntries d) d := by
  induction d using List.reverseRecOn with
  | nil => exact .nil
  | append_singleton d e ih =>
    obtain ⟨a, m⟩ := e
    rw [ofEntries_concat]
    by_cases ha : a ∈ d.map (·.1)
    · exact ih.read_of_mem ha m
    · exact ih.read_of_not_mem ha m

/-! ## Putting back -/

variable [DecidableEq M]

/-- What is kept at distinct places is what was put there, unless it is zero. -/
theorem foldl_set_spec {size : Nat} {totals : List (Nat × M)}
    (hn : (totals.map (·.1)).Nodup) (hsize : ∀ p ∈ totals, p.1 < size) :
    let out := totals.foldl
      (fun kept (place, m) => if m = 0 then kept else kept.set place (some m))
      (List.replicate size (none : Option M))
    out.length = size ∧
      ∀ place m, out[place]? = some (some m) ↔ (place, m) ∈ totals ∧ m ≠ 0 := by
  induction totals using List.reverseRecOn with
  | nil => simp [List.getElem?_replicate]
  | append_singleton totals p ih =>
    obtain ⟨q, k⟩ := p
    rw [List.map_append, List.nodup_append] at hn
    obtain ⟨hlen, hget⟩ := ih hn.1 fun p hp => hsize p (List.mem_append_left _ hp)
    have hq : q < size := hsize (q, k) (List.mem_append_right _ (List.mem_singleton_self _))
    have hnew : ∀ m, (q, m) ∉ totals := fun m hm =>
      hn.2.2 q (List.mem_map.mpr ⟨_, hm, rfl⟩) q (List.mem_singleton_self q) rfl
    dsimp only at hlen hget ⊢
    rw [List.foldl_concat]
    generalize totals.foldl _ (List.replicate size none) = kept at hlen hget ⊢
    by_cases hk : k = 0
    · rw [if_pos hk]
      refine ⟨hlen, fun place m => (hget place m).trans (and_congr_left fun hm => ?_)⟩
      simp [hk, hm]
    · rw [if_neg hk]
      refine ⟨by rw [List.length_set, hlen], fun place m => ?_⟩
      rw [List.getElem?_set]
      by_cases hp : q = place
      · subst hp
        simp only [hlen, hq, if_true, List.mem_append, hnew, List.mem_singleton, false_or,
          Option.some.injEq, Prod.mk.injEq, true_and]
        exact ⟨fun h => ⟨h.symm, h ▸ hk⟩, fun h => h.1.symm⟩
      · simp [hp, Ne.symm hp, hget]

theorem kept_spec (d : Delta α M) :
    ((ofEntries d).kept d.length).length = d.length ∧
      ∀ place m, ((ofEntries d).kept d.length)[place]? = some (some m) ↔
        (∃ a ∈ (d.map (·.1)).eraseDups, ((d.map (·.1)).idxOf a, total a d) = (place, m)) ∧
          m ≠ 0 := by
  have hreads := reads_ofEntries d
  have hzip : (ofEntries d).firsts.zip (ofEntries d).totals =
      (d.map (·.1)).eraseDups.map fun a => ((d.map (·.1)).idxOf a, total a d) := by
    rw [hreads.firsts, hreads.totals, List.zip_map']
  simp only [← List.mem_map, kept, hzip]
  refine foldl_set_spec ?_ fun p hp => ?_
  · rw [List.map_map]
    exact List.pairwise_map.mpr ((pairwise_eraseDups _).imp Nat.ne_of_lt)
  · obtain ⟨a, ha, rfl⟩ := List.mem_map.mp hp
    simpa using List.idxOf_lt_length_of_mem (List.mem_eraseDups.mp ha)

omit [CommRing M] [DecidableEq M] in
/-- The item whose first place is given is the one that stands there. -/
theorem eq_of_idxOf_eq {i : Nat} (hi : i < d.length) (ha : a ∈ d.map (·.1))
    (h : (d.map (·.1)).idxOf a = i) : a = d[i].1 := by
  subst h
  have hget := List.getElem_idxOf (List.idxOf_lt_length_of_mem ha)
  rw [List.getElem_map] at hget
  exact hget.symm

/-- **An item has its total put back where it stood first**, unless that is zero. -/
theorem kept_eq (d : Delta α M) :
    (ofEntries d).kept d.length = d.zipIdx.map fun (e, place) =>
      if (d.map (·.1)).idxOf e.1 = place ∧ total e.1 d ≠ 0 then some (total e.1 d) else none := by
  obtain ⟨hlen, hget⟩ := kept_spec d
  refine List.ext_getElem (by simpa using hlen) fun i hi hi' => Option.ext fun m => ?_
  have hid : i < d.length := hlen ▸ hi
  have h := hget i m
  rw [List.getElem?_eq_getElem hi, Option.some.injEq] at h
  rw [h, List.getElem_map, List.getElem_zipIdx, Nat.zero_add]
  dsimp only
  constructor
  · rintro ⟨⟨a, ha, he⟩, hm⟩
    obtain ⟨hfirst, rfl⟩ := Prod.mk.inj he
    obtain rfl := eq_of_idxOf_eq hid (List.mem_eraseDups.mp ha) hfirst
    rw [if_pos ⟨hfirst, hm⟩]
  · intro hm
    split at hm
    · rename_i hfirst
      obtain rfl := Option.some.inj hm
      have hmem : d[i].1 ∈ d.map (·.1) := List.mem_map_of_mem (List.getElem_mem hid)
      exact ⟨⟨_, List.mem_eraseDups.mpr hmem, Prod.ext hfirst.1 rfl⟩, hfirst.2⟩
    · cases hm

end Slots

/-! ## What comes out -/

namespace Delta

variable {α M : Type} [DecidableEq α] [CommRing M] [DecidableEq M]

/-- **The items of a delta in the order of first occurrence, each with its total, but for those
whose total is zero.** -/
theorem consolidate_eq (d : Delta α M) :
    consolidate d =
      ((d.map (·.1)).eraseDups.map fun a => (a, total a d)).filter fun (_, m) => m != 0 := by
  have hzip : d.zip ((Slots.ofEntries d).kept d.length) = d.zipIdx.map fun (e, place) =>
      (e, if (d.map (·.1)).idxOf e.1 = place ∧ total e.1 d ≠ 0
        then some (total e.1 d) else none) := by
    rw [Slots.kept_eq, zip_map_zipIdx]
  rw [consolidate, Slots.consolidate, hzip, List.filterMap_map, ← filterMap_first,
    List.map_filterMap, List.filter_filterMap, List.zipIdx_map, List.filterMap_map]
  refine List.filterMap_congr fun p _ => ?_
  obtain ⟨⟨a, m⟩, place⟩ := p
  by_cases hfirst : (d.map (·.1)).idxOf a = place <;> by_cases hz : total a d = 0 <;>
    simp [hfirst, hz, Option.filter]

end Delta

end DeltaView
