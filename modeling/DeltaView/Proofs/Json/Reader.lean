import DeltaView.Proofs.Json.Lexer

/-!
# Reading written trees

The machine that the tokens of a tree drive ends with the draft of that tree, and the draft has the
tree itself as its meaning.

* `Json.draft`, `Json.depth`: the draft of a tree, and how many containers it opens inside each other.
* `Shape.Covers`: everything in a tree is asked for.
* `draftOf?_tokens`: a machine that expects a value has the draft after the tokens of a tree, whatever
  is open around it and whatever follows.
* `json?_draft`: the tree of a draft, if all of it is asked for.
* **`readShape?_pretty`**: a tree is read back from its indented text.
-/

namespace DeltaView

namespace Json

mutual

/-- The draft of a tree: everything has a meaning. -/
def draft : Json → Draft
  | .array items => .array (itemDrafts items)
  | .object members => .object (memberDrafts members)
  | j => .scalar (some j)

def itemDrafts : List Json → List Draft
  | [] => []
  | j :: js => draft j :: itemDrafts js

def memberDrafts : List (String × Json) → List (Option String × Draft)
  | [] => []
  | (name, j) :: rest => (some name, draft j) :: memberDrafts rest

end

mutual

/-- How many containers does a tree open inside each other? -/
def depth : Json → Nat
  | .array items => itemsDepth items + 1
  | .object members => membersDepth members + 1
  | _ => 0

def itemsDepth : List Json → Nat
  | [] => 0
  | j :: js => max (depth j) (itemsDepth js)

def membersDepth : List (String × Json) → Nat
  | [] => 0
  | (_, j) :: rest => max (depth j) (membersDepth rest)

end

/-! ## The machine -/

theorem draftOf?_step {state state' : Expect} {t : Token} (h : accept? state t = some state')
    (ts : List Token) : draftOf? state (t :: ts) = draftOf? state' ts := by
  have hcons : draftOf? state (t :: ts) = (accept? state t).bind (draftOf? · ts) := by
    cases state with
    | after t' stack => cases stack <;> rfl
    | _ => rfl
  rw [hcons, h, Option.bind_some]

/-- No tree starts with a closing bracket, so a first item is read as a value. -/
theorem draftOf?_item (j : Json) (stack : List Frame) (ts : List Token) :
    draftOf? (.item stack) (tokens j ++ ts) =
      draftOf? (.value (.array [] :: stack)) (tokens j ++ ts) := by
  cases j <;> rfl

/-- A member's name and the colon after it. -/
theorem draftOf?_name (done : List (Option String × Draft)) (name : Option String)
    (stack : List Frame) (ts : List Token) :
    draftOf? (.name done stack) (.text name :: .colon :: ts) =
      draftOf? (.value (.object done name :: stack)) ts := by
  cases done <;> rfl

mutual

/-- **The tokens of a tree make its draft**, whatever is open around it and whatever follows. -/
theorem draftOf?_tokens : ∀ (j : Json) (stack : List Frame) (ts : List Token),
    draftOf? (.value stack) (tokens j ++ ts) = draftOf? (.after (draft j) stack) ts
  | .null, _, _ => rfl
  | .bool _, _, _ => rfl
  | .int _, _, _ => rfl
  | .float _, _, _ => rfl
  | .string _, _, _ => rfl
  | .array items, stack, ts => by
    have hopen : accept? (.value stack) .openArray = some (.item stack) := rfl
    show draftOf? _ (.openArray :: (itemTokens true items ++ ts)) = _
    rw [draftOf?_step hopen]
    cases items with
    | nil => rfl
    | cons j js =>
      show draftOf? _ (tokens j ++ itemTokens false js ++ ts) = _
      rw [List.append_assoc, draftOf?_item, draftOf?_tokens j, draftOf?_itemTokens js]
      rfl
  | .object members, stack, ts => by
    have hopen : accept? (.value stack) .openObject = some (.name [] stack) := rfl
    show draftOf? _ (.openObject :: (memberTokens true members ++ ts)) = _
    rw [draftOf?_step hopen]
    cases members with
    | nil => rfl
    | cons m rest =>
      obtain ⟨name, j⟩ := m
      show draftOf? _ (.text (some name) :: .colon :: (tokens j ++ memberTokens false rest ++ ts)) = _
      rw [List.append_assoc, draftOf?_name, draftOf?_tokens j, draftOf?_memberTokens rest]
      rfl

/-- Further items behind a complete one. -/
theorem draftOf?_itemTokens : ∀ (items : List Json) (t : Draft) (done : List Draft)
    (stack : List Frame) (ts : List Token),
      draftOf? (.after t (.array done :: stack)) (itemTokens false items ++ ts) =
        draftOf? (.after (.array (done.reverse ++ t :: itemDrafts items)) stack) ts
  | [], t, done, stack, ts => by
    rw [itemDrafts, ← List.reverse_cons]
    rfl
  | j :: js, t, done, stack, ts => by
    have hcomma : accept? (.after t (.array done :: stack)) .comma =
        some (.value (.array (t :: done) :: stack)) := rfl
    show draftOf? _ (.comma :: (tokens j ++ itemTokens false js ++ ts)) = _
    rw [draftOf?_step hcomma, List.append_assoc, draftOf?_tokens j, draftOf?_itemTokens js,
      itemDrafts, List.reverse_cons, List.append_assoc]
    rfl

/-- Further members behind a complete one. -/
theorem draftOf?_memberTokens : ∀ (members : List (String × Json)) (t : Draft)
    (done : List (Option String × Draft)) (name : Option String) (stack : List Frame)
    (ts : List Token),
      draftOf? (.after t (.object done name :: stack)) (memberTokens false members ++ ts) =
        draftOf? (.after (.object (done.reverse ++ (name, t) :: memberDrafts members)) stack) ts
  | [], t, done, name, stack, ts => by
    rw [memberDrafts, ← List.reverse_cons]
    rfl
  | (name', j) :: rest, t, done, name, stack, ts => by
    have hcomma : accept? (.after t (.object done name :: stack)) .comma =
        some (.name ((name, t) :: done) stack) := rfl
    show draftOf? _
      (.comma :: .text (some name') :: .colon :: (tokens j ++ memberTokens false rest ++ ts)) = _
    rw [draftOf?_step hcomma, draftOf?_name, List.append_assoc, draftOf?_tokens j,
      draftOf?_memberTokens rest, memberDrafts, List.reverse_cons, List.append_assoc]
    rfl

end

/-! ## The meaning of a draft -/

mutual

/-- Is everything in a tree asked for? -/
def Shape.Covers : Shape → Json → Prop
  | shape, .array items => Shape.CoversItems shape 0 items
  | shape, .object members => Shape.CoversMembers shape members
  | _, _ => True

/-- Is everything asked for in items, the first of which has the given place? -/
def Shape.CoversItems : Shape → Nat → List Json → Prop
  | _, _, [] => True
  | shape, i, j :: js => (shape.item i).Covers j ∧ Shape.CoversItems shape (i + 1) js

def Shape.CoversMembers : Shape → List (String × Json) → Prop
  | _, [] => True
  | shape, (name, j) :: rest =>
    (∃ s, shape.member? name = some s ∧ s.Covers j) ∧ Shape.CoversMembers shape rest

end

mutual

theorem Shape.covers_whole : ∀ j : Json, whole.Covers j
  | .null | .bool _ | .int _ | .float _ | .string _ => trivial
  | .array items => Shape.coversItems_whole 0 items
  | .object members => Shape.coversMembers_whole members

theorem Shape.coversItems_whole : ∀ (i : Nat) (items : List Json), whole.CoversItems i items
  | _, [] => trivial
  | i, j :: js => ⟨Shape.covers_whole j, Shape.coversItems_whole (i + 1) js⟩

theorem Shape.coversMembers_whole : ∀ members : List (String × Json), whole.CoversMembers members
  | [] => trivial
  | (_, j) :: rest => ⟨⟨whole, rfl, Shape.covers_whole j⟩, Shape.coversMembers_whole rest⟩

end

theorem Shape.coversMembers_iff {shape : Shape} {members : List (String × Json)} :
    shape.CoversMembers members ↔
      ∀ m ∈ members, ∃ s, shape.member? m.1 = some s ∧ s.Covers m.2 := by
  induction members with
  | nil => exact ⟨fun _ _ h => absurd h List.not_mem_nil, fun _ => trivial⟩
  | cons m members ih =>
    rw [List.forall_mem_cons, ← ih]
    exact Iff.rfl

theorem Shape.covers_list {shape : Shape} {items : List Json} (h : ∀ j ∈ items, shape.Covers j) :
    (list shape).Covers (.array items) := by
  have hitems : ∀ i, (list shape).CoversItems i items := by
    induction items with
    | nil => exact fun _ => trivial
    | cons j js ih =>
      rw [List.forall_mem_cons] at h
      exact fun i => ⟨h.1, ih h.2 (i + 1)⟩
  exact hitems 0

theorem Shape.member?_plainRecord {name : String} {names : List String} (h : name ∈ names) :
    (plainRecord names).member? name = some whole := by
  show (names.map fun n => (n, whole)).lookup name = some whole
  induction names with
  | nil => exact absurd h List.not_mem_nil
  | cons n names ih =>
    rw [List.map_cons, List.lookup_cons]
    split
    · rfl
    · rename_i hne
      exact ih ((List.mem_cons.mp h).resolve_left (beq_eq_false_iff_ne.mp hne))

theorem Shape.covers_plainRecord {names : List String} {members : List (String × Json)}
    (h : ∀ m ∈ members, m.1 ∈ names) : (plainRecord names).Covers (.object members) :=
  Shape.coversMembers_iff.mpr fun m hm =>
    ⟨whole, Shape.member?_plainRecord (h m hm), Shape.covers_whole m.2⟩

mutual

/-- **A draft has its tree as its meaning**, if all of the tree is asked for. -/
theorem json?_draft : ∀ {j : Json} {shape : Shape} {d : Nat}, shape.Covers j → j.depth ≤ d →
    Draft.json? d shape (draft j) = some j
  | .null, _, _, _, _ | .bool _, _, _, _, _ | .int _, _, _, _, _ | .float _, _, _, _, _
  | .string _, _, _, _, _ => rfl
  | .array items, shape, 0, _, hdepth => absurd hdepth (Nat.not_succ_le_zero _)
  | .array items, shape, d + 1, hshape, hdepth => by
    rw [draft, Draft.json?, itemsJson?_drafts hshape (Nat.le_of_succ_le_succ hdepth)]
    rfl
  | .object members, shape, 0, _, hdepth => absurd hdepth (Nat.not_succ_le_zero _)
  | .object members, shape, d + 1, hshape, hdepth => by
    rw [draft, Draft.json?, membersJson?_drafts hshape (Nat.le_of_succ_le_succ hdepth)]
    rfl

theorem itemsJson?_drafts : ∀ {items : List Json} {shape : Shape} {i d : Nat},
    shape.CoversItems i items → itemsDepth items ≤ d →
      Draft.itemsJson? d shape i (itemDrafts items) = some items
  | [], _, _, _, _, _ => by rw [itemDrafts, Draft.itemsJson?]
  | j :: js, shape, i, d, hshape, hdepth => by
    obtain ⟨hj, hjs⟩ := Nat.max_le.mp hdepth
    rw [itemDrafts, Draft.itemsJson?, json?_draft hshape.1 hj, itemsJson?_drafts hshape.2 hjs]
    rfl

theorem membersJson?_drafts : ∀ {members : List (String × Json)} {shape : Shape} {d : Nat},
    shape.CoversMembers members → membersDepth members ≤ d →
      Draft.membersJson? d shape (memberDrafts members) = some members
  | [], _, _, _, _ => by rw [memberDrafts, Draft.membersJson?]
  | (name, j) :: rest, shape, d, ⟨⟨s, hname, hs⟩, hrest⟩, hdepth => by
    obtain ⟨hj, hmembers⟩ := Nat.max_le.mp hdepth
    rw [memberDrafts, Draft.membersJson?, hname]
    show (Draft.json? d s (draft j)).bind _ = _
    rw [json?_draft hs hj, membersJson?_drafts hrest hmembers]
    rfl

end

/-! ## Whole texts -/

theorem Draft.read?_pretty {j : Json} (h : j.Readable) : Draft.read? j.pretty = some j.draft := by
  have hlex : lex? .between (prettyChars 0 j) = some (tokens j) := by
    have hends : EndsWord [] := fun _ hc => by cases hc
    rw [← List.append_nil (prettyChars 0 j), lex?_prettyChars h 0 hends]
    exact congrArg some (List.append_nil (tokens j))
  have hmachine : draftOf? (.value []) (tokens j) = some j.draft := by
    rw [← List.append_nil (tokens j), draftOf?_tokens]
    rfl
  unfold Draft.read? pretty
  rw [String.toList_ofList, hlex]
  exact hmachine

/-- **A tree is read back from its indented text**, if all of it is asked for and its containers are
not too many inside each other. -/
theorem readShape?_pretty {shape : Shape} {j : Json} (hread : j.Readable) (hshape : shape.Covers j)
    (hdepth : j.depth ≤ depthLimit) : readShape? shape j.pretty = some j := by
  unfold readShape?
  rw [Draft.read?_pretty hread]
  exact json?_draft hshape hdepth

end Json

end DeltaView
