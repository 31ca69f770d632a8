import DeltaView.Change
import DeltaView.Row
import DeltaView.Table

/-!
# Rows of a view

The rows that a view shows, each under its key as a value, with its order key where the view is
ordered.

* `fold` takes the change of a circuit's output in and reports it key by key: what was shown
  before and no longer is, and what is shown instead.
* `results` lists the rows by order key and key.
-/

namespace DeltaView

structure ViewRow where
  value : Value
  order : Option String
deriving DecidableEq

abbrev ViewRows := Table Value ViewRow

namespace ViewRows

/-- The keys whose rows a change takes out. -/
def retractedKeys (d : Delta Row) : List Value :=
  (d.filter fun (_, m) => m < 0).map fun (r, _) => r.key.toValue

/-- The rows that a change puts in, by key; the last one of a key stays. -/
def inserted (d : Delta Row) : List (Value × ViewRow) :=
  (d.filter fun (_, m) => ¬ m < 0).map fun (r, _) => (r.key.toValue, ⟨r.value, r.order⟩)

/-- Puts rows under their keys, one after the other. -/
def putAll (rows : List (Value × ViewRow)) (v : ViewRows) : ViewRows :=
  rows.foldl (fun v (k, r) => v.put k r) v

def eraseAll (keys : List Value) (v : ViewRows) : ViewRows := keys.foldl (fun v k => v.erase k) v

/-- The rows shown under some of the keys. -/
def restrict (keys : List Value) (v : ViewRows) : ViewRows :=
  keys.eraseDups.filterMap fun k => (v.get? k).map fun r => (k, r)

/-- By ascending key. -/
def sortByKey (v : ViewRows) : ViewRows := v.mergeSort fun a b => (Value.cmp a.1 b.1).isLE

/-- What becomes of a row that is taken out: the row that is put in under its key, or nothing. -/
def replacement (added : ViewRows) (key : Value) (old : ViewRow) : Change :=
  match added.get? key with
  | some new => ⟨.update, key, new.value, some old.value⟩
  | none => ⟨.delete, key, old.value, none⟩

/-- The changes of the rows, key by key: replaced and removed ones first. -/
def changes (removed added : ViewRows) : List Change :=
  (sortByKey removed).map (fun (k, old) => replacement added k old) ++
    (sortByKey (added.filter fun (k, _) => (removed.get? k).isNone)).map fun (k, new) =>
      ⟨.insert, k, new.value, none⟩

/-- Takes a change of the rows in, and reports it. -/
def fold (v : ViewRows) (d : Delta Row) : ViewRows × List Change :=
  let keys := retractedKeys d
  let rows := inserted d
  (putAll rows (eraseAll keys v), changes (restrict keys v) (putAll rows []))

/-- The rows by order key, those without one first, and by key. -/
def results (v : ViewRows) : List (Value × ViewRow) :=
  v.mergeSort fun a b =>
    ((Row.cmpOrder a.2.order b.2.order).then (Value.cmp a.1 b.1)).isLE

end ViewRows

end DeltaView
