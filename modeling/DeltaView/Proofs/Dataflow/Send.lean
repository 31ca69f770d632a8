import DeltaView.Proofs.Dataflow.Ledger

/-!
# Sending

What is sent to a graph waits at its inputs. Changes that are sent one after the other come to what
is sent to each input, so the order of two inputs does not matter.

* `send_eq_ok`: a change is sent to an input, and to no other node.
* `sentTo`: what some changes put at one node. **`sendAll_node`**: what becomes of the nodes.
* `sendAll_ok`: changes can be sent to inputs. `sendAll_idle`: a graph that has nothing to do
  afterwards is the graph that it was.
* `send_spec`, **`sendAll_spec`**: what this does to the ledger.
-/

namespace DeltaView

namespace Node

variable {O E : Type}

@[simp] theorem receive_nil (n : Node O E) (inlet : Nat) : n.receive inlet [] = n := by
  rw [receive, show (fun d : List E => d ++ []) = id from funext List.append_nil, List.modify_id]

theorem receive_receive (n : Node O E) (inlet : Nat) (d e : List E) :
    (n.receive inlet d).receive inlet e = n.receive inlet (d ++ e) := by
  unfold receive
  dsimp only
  rw [List.modify_modify_eq]
  congr 2
  funext x
  exact List.append_assoc ..

/-- A node that has no input after it received a change has received nothing. -/
theorem receive_eq {n : Node O E} {inlet : Nat} {d : List E}
    (h : (n.receive inlet d).hasInput = false) : n.receive inlet d = n := by
  suffices hbox : n.inbox.modify inlet (· ++ d) = n.inbox by
    show { n with inbox := n.inbox.modify inlet (· ++ d) } = n
    rw [hbox]
  rw [hasInput, List.any_eq_false] at h
  refine List.ext_getElem? fun j => ?_
  rw [List.getElem?_modify]
  cases hj : n.inbox[j]? with
  | none => rfl
  | some e =>
    by_cases hij : inlet = j
    · have hmem : e ++ d ∈ (n.receive inlet d).inbox := by
        refine List.mem_iff_getElem?.mpr ⟨j, ?_⟩
        show (n.inbox.modify inlet (· ++ d))[j]? = _
        rw [List.getElem?_modify, hj]
        simp [hij]
      have hempty : e ++ d = [] := by simpa using h _ hmem
      obtain ⟨-, rfl⟩ := List.append_eq_nil_iff.mp hempty
      simp
    · simp [hij]

end Node

namespace Graph

variable {O E : Type}

variable {g g' : Graph O E} {i : Nat} {d : List E}
  {sends : List (Nat × List E)}

/-! ## One change -/

theorem send_eq_ok : g.send i d = .ok g' ↔ ∃ n, g.nodes[i]? = some n ∧ n.isInput = true ∧
    g' = { g with nodes := g.nodes.modify i (·.receive 0 d) } := by
  unfold send
  cases hn : g.nodes[i]? with
  | none => simp
  | some n =>
    cases hin : n.isInput with
    | false => simp [hin]
    | true =>
      dsimp only
      rw [if_pos hin, Except.ok.injEq]
      constructor
      · rintro rfl
        exact ⟨n, rfl, hin, rfl⟩
      · rintro ⟨-, -, -, rfl⟩
        rfl

theorem send_node (h : g.send i d = .ok g') (k : Nat) :
    g'.nodes[k]? = (g.nodes[k]?).map (·.receive 0 (if i = k then d else [])) := by
  obtain ⟨-, -, -, rfl⟩ := send_eq_ok.mp h
  rw [List.getElem?_modify]
  split
  · rfl
  · simp only [Node.receive_nil]
    rfl

theorem send_ok {n : Node O E} (hn : g.nodes[i]? = some n) (hin : n.isInput = true) (d : List E) :
    ∃ g', g.send i d = .ok g' := ⟨_, send_eq_ok.mpr ⟨n, hn, hin, rfl⟩⟩

/-- A change cannot be sent to a node that is not there or no input. -/
theorem send_error {e : Error} (h : g.send i d = .error e) :
    e = .unknownNode i ∨ e = .graph (.notInput i) := by
  unfold send at h
  split at h
  · exact Or.inl (Except.error.inj h).symm
  · split at h
    · cases h
    · exact Or.inr (Except.error.inj h).symm

/-! ## Several changes -/

/-- What some changes put at one node. -/
def sentTo (sends : List (Nat × List E)) (n : Nat) : List E :=
  (sends.filter (·.1 = n)).flatMap (·.2)

theorem sentTo_cons (i : Nat) (d : List E) (sends : List (Nat × List E)) (n : Nat) :
    sentTo ((i, d) :: sends) n = (if i = n then d else []) ++ sentTo sends n := by
  unfold sentTo
  rw [List.filter_cons]
  by_cases hi : i = n
  · simp [hi]
  · simp [hi]

theorem sendAll_cons : g.sendAll ((i, d) :: sends) = .ok g' ↔
    ∃ g1, g.send i d = .ok g1 ∧ g1.sendAll sends = .ok g' := by
  rw [sendAll]
  cases hs : g.send i d <;> simp

/-- What a change that is sent keeps, several keep. -/
theorem sendAll_keeps {P : Graph O E → Prop}
    (hP : ∀ {g g' : Graph O E} {i : Nat} {d : List E}, P g → g.send i d = .ok g' → P g') (hg : P g)
    (h : g.sendAll sends = .ok g') : P g' := by
  induction sends generalizing g with
  | nil => exact Except.ok.inj h ▸ hg
  | cons e sends ih =>
    obtain ⟨g1, hsend, hrest⟩ := sendAll_cons.mp h
    exact ih (hP hg hsend) hrest

/-- **What is sent to a node waits there**, and the others are left alone. -/
theorem sendAll_node (h : g.sendAll sends = .ok g') (k : Nat) :
    g'.nodes[k]? = (g.nodes[k]?).map (·.receive 0 (sentTo sends k)) := by
  induction sends generalizing g with
  | nil =>
    obtain rfl := Except.ok.inj h
    simp [sentTo]
  | cons e sends ih =>
    obtain ⟨i, d⟩ := e
    obtain ⟨g1, hsend, hrest⟩ := sendAll_cons.mp h
    rw [ih hrest, send_node hsend, Option.map_map, sentTo_cons]
    exact Option.map_congr fun n _ => n.receive_receive 0 _ _

/-- Changes can be sent to inputs. -/
theorem sendAll_ok (h : ∀ e ∈ sends, ∃ n, g.nodes[e.1]? = some n ∧ n.isInput = true) :
    ∃ g', g.sendAll sends = .ok g' := by
  induction sends generalizing g with
  | nil => exact ⟨g, rfl⟩
  | cons e sends ih =>
    obtain ⟨i, d⟩ := e
    obtain ⟨n, hn, hin⟩ := h _ List.mem_cons_self
    obtain ⟨g1, hsend⟩ := send_ok hn hin d
    obtain ⟨g', hrest⟩ := ih (g := g1) fun e he => by
      obtain ⟨m, hm, hmin⟩ := h e (List.mem_cons_of_mem _ he)
      exact ⟨_, (send_node hsend e.1).trans (congrArg (Option.map _) hm), hmin⟩
    exact ⟨g', sendAll_cons.mpr ⟨g1, hsend, hrest⟩⟩

theorem sendAll_error {e : Error} (h : g.sendAll sends = .error e) :
    ∃ i, e = .unknownNode i ∨ e = .graph (.notInput i) := by
  induction sends generalizing g with
  | nil => cases h
  | cons entry sends ih =>
    obtain ⟨i, d⟩ := entry
    unfold sendAll at h
    split at h
    · rename_i hsend
      obtain rfl := Except.error.inj h
      exact ⟨i, send_error hsend⟩
    · exact ih h

/-! ## What is left alone -/

section Kept

variable [NodeOperator O E]

/-- A graph that has nothing to do after a change was sent to it is the graph that it was. -/
theorem send_idle (h : g.send i d = .ok g') (hidle : g'.Idle) : g' = g := by
  have hsame : g'.nodes = g.nodes := List.ext_getElem? fun k => by
    rw [send_node h k]
    cases hk : g.nodes[k]? with
    | none => rfl
    | some m =>
      have hwork := hidle k _ ((send_node h k).trans (congrArg (Option.map _) hk))
      rw [Node.hasWork, Bool.or_eq_false_iff] at hwork
      rw [Option.map_some, Node.receive_eq hwork.1]
  obtain ⟨-, -, -, rfl⟩ := send_eq_ok.mp h
  exact congrArg (fun nodes => { g with nodes }) hsame

theorem sendAll_idle (h : g.sendAll sends = .ok g') (hidle : g'.Idle) : g' = g := by
  induction sends generalizing g with
  | nil => exact (Except.ok.inj h).symm
  | cons e sends ih =>
    obtain ⟨g1, hsend, hrest⟩ := sendAll_cons.mp h
    obtain rfl := ih hrest
    exact send_idle hsend hidle

variable {K : Type} [NodeOperator.Settling O K]

/-- A change that is sent leaves the nodes what they are. -/
theorem kept_send (h : g.send i d = .ok g') : Kept g g' := by
  obtain ⟨n, hn, -, rfl⟩ := send_eq_ok.mp h
  refine ⟨frames_eq_of_nodes (List.length_modify ..) fun k m hm => ?_, rfl, rfl⟩
  rw [send_node h k, Option.map_eq_some_iff] at hm
  obtain ⟨m0, hm0, rfl⟩ := hm
  exact ⟨m0, hm0, by rw [Node.frame, Node.frame, Node.receive, List.length_modify]⟩

theorem kept_sendAll (h : g.sendAll sends = .ok g') : Kept g g' :=
  sendAll_keeps (P := Kept g) (fun hg hsend => hg.trans (kept_send hsend)) (.refl g) h

end Kept

/-! ## The ledger -/

section Ledger

variable {g g' : Graph} {ins : Nat → List Nat} {l : Ledger} {i : Nat} {d : Delta Row}
  {sends : List (Nat × Delta Row)}

/-- A change that is sent waits at its input. -/
theorem send_spec (hw : Wired g.frames ins) (ha : Accounts g.nodes ins l)
    (h : g.send i d = .ok g') : Accounts g'.nodes ins
      { l with sent := fun k => if k = i then l.sent i ++ d else l.sent k } := by
  obtain ⟨n, hn, hin, -⟩ := send_eq_ok.mp h
  intro k m hm
  rw [send_node h k, Option.map_eq_some_iff] at hm
  obtain ⟨m0, hm0, rfl⟩ := hm
  have htells := ha k m0 hm0
  refine ⟨(List.length_modify ..).trans htells.inlets, htells.reached, fun j p hp => ?_,
    fun hmin => ?_⟩
  · -- Only an input receives anything, and no node feeds that.
    have hik : i ≠ k := fun hik => by
      subst hik
      rw [hw.inputs i _ (frame_of_node hn) hin] at hp
      exact absurd hp (by simp)
    rw [if_neg hik, Node.receive_nil]
    exact htells.flow j p hp
  · dsimp only
    rw [waitingAt_receive m0 0 _ (hw.input_pos hm0 hmin), if_pos rfl, ← List.append_assoc]
    by_cases hki : k = i
    · subst hki
      rw [if_pos rfl, if_pos rfl]
      exact (htells.sent hmin).append (.refl d)
    · rw [if_neg (Ne.symm hki), if_neg hki, List.append_nil]
      exact htells.sent hmin

/-- **The ledger after some changes were sent.** -/
theorem sendAll_spec (hw : Wired g.frames ins) (ha : Accounts g.nodes ins l)
    (h : g.sendAll sends = .ok g') :
    Accounts g'.nodes ins { l with sent := fun n => l.sent n ++ sentTo sends n } := by
  induction sends generalizing g l with
  | nil =>
    obtain rfl := Except.ok.inj h
    have hl : { l with sent := fun n => l.sent n ++ sentTo [] n } = l :=
      congrArg (fun sent => { l with sent }) (funext fun n => List.append_nil _)
    rw [hl]
    exact ha
  | cons e sends ih =>
    obtain ⟨i, d⟩ := e
    obtain ⟨g1, hsend, hrest⟩ := sendAll_cons.mp h
    have hw1 : Wired g1.frames ins := (kept_send hsend).frames ▸ hw
    have hsent : (fun n => (if n = i then l.sent i ++ d else l.sent n) ++ sentTo sends n) =
        fun n => l.sent n ++ sentTo ((i, d) :: sends) n := funext fun n => by
      rw [sentTo_cons, ← List.append_assoc]
      by_cases hn : n = i
      · subst hn
        rw [if_pos rfl, if_pos rfl]
      · rw [if_neg hn, if_neg (Ne.symm hn), List.append_nil]
    have hrest := ih hw1 (send_spec hw ha hsend) hrest
    dsimp only at hrest
    rwa [hsent] at hrest

end Ledger

end Graph

end DeltaView
