import DeltaView.Proofs.Query.Loading
import DeltaView.Proofs.View.History

/-!
# Views of loaded rows

A view reports conditions on the collections that its query reads directly. A view that is given
only the rows that satisfy them shows what a view of all rows shows, if what is reported for a
collection that an outer join may leave absent refuses rows without it.

* **`loaded_output_same`**: the rows of the plans, and what comes out of the graphs.
* `loaded_output_differs`: a reported condition that accepts rows without its collection.
-/

namespace DeltaView

namespace History

variable {functions : RowFunctions} {p : Plan} {q : Query}

/-- **A view of the rows that a query needs** puts out what a view of all rows puts out. Every direct
source of the query may have a collection of its own. -/
theorem loaded_output_same (functions : RowFunctions) (hrefuse : q.ReportsRefuse)
    (hp : Plan.ofQuery? q = .ok p) (feed : String → String) :
    ∃ p', Plan.ofQuery? (q.fedBy feed) = .ok p' ∧
      (∀ tables tables' : Snapshot, q.Loads feed tables tables' → ∀ window : Option Window,
        Delta.Same ((p'.atWindow window).rows functions tables')
          ((p.atWindow window).rows functions tables)) ∧
      ∀ (plain : Optimizer) (g h : History) (window : Option Window), plain.isEnabled = false →
        g.Settled functions plain q window → h.Settled functions plain (q.fedBy feed) window →
        p.Regular functions g.snapshots → p'.Regular functions h.snapshots →
        q.Loads feed g.view.snapshot h.view.snapshot →
        Delta.Same (Delta.mapItems Row.unordered h.output)
          (Delta.mapItems Row.unordered g.output) := by
  obtain ⟨p', hp', hsame⟩ := Query.loads_same hrefuse hp feed
  refine ⟨p', hp', hsame functions, ?_⟩
  intro plain g h window hplain hg hh hrg hrh hloads
  have hunchanged : ∀ q : Query, plain.optimize q = q := fun q => by
    unfold Optimizer.optimize
    rw [hplain]
    rfl
  have hshows := (hg.shows ((hunchanged q).symm ▸ hp) hrg).1
  have hshows' := (hh.shows ((hunchanged (q.fedBy feed)).symm ▸ hp') hrh).1
  exact hshows'.trans ((hsame functions _ _ hloads window).trans hshows.symm)

/-- Employees with their bosses that are active, by a left join. The bosses are read from a
collection of their own, which lacks those that are not. -/
theorem loaded_output_of_self_join :
    let functions : RowFunctions := fun _ v => v
    let q : Query :=
      { source := .collection "staff" "e"
        joins := [⟨.left, .collection "staff" "m", .ref ["e", "boss"], .ref ["m", "id"]⟩]
        filters := [⟨.ref ["m", "active"], false⟩] }
    let feed : String → String := fun a => if a = "m" then "bosses" else "staff"
    ∃ p p', ∃ g h : History, q.ReportsRefuse ∧ Plan.ofQuery? q = .ok p ∧
      Plan.ofQuery? (q.fedBy feed) = .ok p' ∧ g.Settled functions ⟨false, 10, 32⟩ q none ∧
      h.Settled functions ⟨false, 10, 32⟩ (q.fedBy feed) none ∧
      q.Loads feed g.view.snapshot h.view.snapshot ∧
      Delta.Same (Delta.mapItems Row.unordered h.output)
        (Delta.mapItems Row.unordered g.output) := by
  intro functions q feed
  let member (id boss : Int64) (active : Bool) : Value :=
    .object [("active", .bool active), ("boss", .int boss), ("id", .int id)]
  let put (name : String) (key : Int64) (v : Value) : Operation :=
    .apply name ⟨.insert, .int key, v, none⟩
  let staff : List Operation :=
    [put "staff" 1 (member 1 2 true), put "staff" 2 (member 2 1 false)]
  let rows : Table Value Value := [(.int 1, member 1 2 true), (.int 2, member 2 1 false)]
  have hplan : Plan.ofQuery? q = .ok (.output (.project .whole (.filter (.ref ["m", "active"])
      (.join .left (.ref ["e", "boss"]) (.ref ["m", "id"]) (.named "e" (.scan "staff"))
        (.named "m" (.scan "staff")))))) := by decide +kernel
  have hplan' : Plan.ofQuery? (q.fedBy feed) =
      .ok (.output (.project .whole (.filter (.ref ["m", "active"])
        (.join .left (.ref ["e", "boss"]) (.ref ["m", "id"]) (.named "e" (.scan "staff"))
          (.named "m" (.scan "bosses")))))) := by decide +kernel
  have hrefuse : q.ReportsRefuse := by
    intro a e he _ row hrow
    have hreported : q.sourceFilters = [("m", .ref ["m", "active"])] := by decide +kernel
    rw [hreported] at he
    obtain ⟨rfl, rfl⟩ := Prod.mk.inj (List.mem_singleton.mp he)
    exact Expr.holds_ref_of_absent ["active"] hrow
  obtain ⟨g, hg, htables⟩ : ∃ g : History, g.Settled functions ⟨false, 10, 32⟩ q none ∧
      g.view.tables = [("staff", rows)] :=
    exists_settled (show (settled? functions id ⟨false, 10, 32⟩ true q staff .flush).map _ = _ by
      decide +kernel)
  obtain ⟨h, hh, htables'⟩ : ∃ h : History,
      h.Settled functions ⟨false, 10, 32⟩ (q.fedBy feed) none ∧
      h.view.tables = [("bosses", [(.int 1, member 1 2 true)]), ("staff", rows)] :=
    exists_settled (show (settled? functions id ⟨false, 10, 32⟩ true (q.fedBy feed)
      (put "bosses" 1 (member 1 2 true) :: staff) .flush).map _ = _ by decide +kernel)
  have hloads : q.Loads feed g.view.snapshot h.view.snapshot := by
    unfold LiveView.snapshot
    rw [htables, htables']
    refine ⟨fun name a hmem => ?_, fun inner a hmem => absurd hmem (by simp [q, Level.sources])⟩
    rcases List.mem_cons.mp hmem with hmain | hmem
    · obtain ⟨rfl, rfl⟩ := Source.collection.inj hmain
      exact .of_eq (by decide +kernel)
    · obtain ⟨rfl, rfl⟩ := Source.collection.inj (List.mem_singleton.mp hmem)
      exact .of_eq (by decide +kernel)
  obtain ⟨p', hp', -, hsame⟩ := loaded_output_same functions hrefuse hplan feed
  obtain rfl := Except.ok.inj (hplan'.symm.trans hp')
  exact ⟨_, _, g, h, hrefuse, hplan, hplan', hg, hh, hloads,
    hsame ⟨false, 10, 32⟩ g h none rfl hg hh ⟨trivial, trivial⟩ ⟨trivial, trivial⟩ hloads⟩

/-- **A reported condition that accepts rows without its collection** is not safe to load by. A
user's post that has a team is not loaded, which leaves the user without a post. -/
theorem loaded_output_differs :
    let functions : RowFunctions := fun _ v => v
    let q : Query :=
      { source := .collection "users" "u"
        joins := [⟨.left, .collection "posts" "p", .ref ["u", "id"], .ref ["p", "author"]⟩]
        filters := [⟨.call "isNull" [.ref ["p", "team"]], false⟩] }
    let feed : String → String := fun a => if a = "p" then "posts" else "users"
    q.fedBy feed = q ∧ ∃ p, ∃ g h : History, Plan.ofQuery? q = .ok p ∧
      g.Settled functions ⟨false, 10, 32⟩ q none ∧ h.Settled functions ⟨false, 10, 32⟩ q none ∧
      p.Regular functions g.snapshots ∧ p.Regular functions h.snapshots ∧
      q.Loads feed g.view.snapshot h.view.snapshot ∧
      ¬ Delta.Same (Delta.mapItems Row.unordered h.output)
        (Delta.mapItems Row.unordered g.output) := by
  intro functions q feed
  let user : Value := .object [("id", .int 1)]
  let post : Value := .object [("author", .int 1), ("team", .string "a")]
  let users : Operation := .apply "users" ⟨.insert, .int 1, user, none⟩
  let posts : Operation := .apply "posts" ⟨.insert, .int 2, post, none⟩
  let alone : Row :=
    { key := .joined (some (.plain (.int 1))) none, value := .object [("u", user)] }
  have hplan : Plan.ofQuery? q = .ok (.output (.project .whole
      (.filter (.call "isNull" [.ref ["p", "team"]])
        (.join .left (.ref ["u", "id"]) (.ref ["p", "author"]) (.named "u" (.scan "users"))
          (.named "p" (.scan "posts")))))) := by decide +kernel
  obtain ⟨g, hg, heq⟩ : ∃ g : History, g.Settled functions ⟨false, 10, 32⟩ q none ∧
      (g.view.tables, Delta.total alone (Delta.mapItems Row.unordered g.output)) =
        ([("users", [(.int 1, user)]), ("posts", [(.int 2, post)])], 0) :=
    exists_settled (show (settled? functions id ⟨false, 10, 32⟩ true q [users] posts).map _ = _ by
      decide +kernel)
  obtain ⟨h, hh, heq'⟩ : ∃ h : History, h.Settled functions ⟨false, 10, 32⟩ q none ∧
      (h.view.tables, Delta.total alone (Delta.mapItems Row.unordered h.output)) =
        ([("users", [(.int 1, user)])], 1) :=
    exists_settled (show (settled? functions id ⟨false, 10, 32⟩ true q [] users).map _ = _ by
      decide +kernel)
  obtain ⟨htables, hnone⟩ := Prod.mk.inj heq
  obtain ⟨htables', hone⟩ := Prod.mk.inj heq'
  refine ⟨by decide +kernel, _, g, h, hplan, hg, hh, ⟨trivial, trivial⟩, ⟨trivial, trivial⟩, ?_,
    fun hsame => ?_⟩
  · unfold LiveView.snapshot
    rw [htables, htables']
    refine ⟨fun name a hmem => ?_, fun inner a hmem => absurd hmem (by simp [q, Level.sources])⟩
    rcases List.mem_cons.mp hmem with hmain | hmem
    · obtain ⟨rfl, rfl⟩ := Source.collection.inj hmain
      exact .of_eq (by decide +kernel)
    · obtain ⟨rfl, rfl⟩ := Source.collection.inj (List.mem_singleton.mp hmem)
      exact .of_eq (by decide +kernel)
  · have := hsame alone
    rw [hnone, hone] at this
    exact absurd this (by decide)

end History

end DeltaView
