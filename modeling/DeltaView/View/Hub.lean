import DeltaView.Change
import DeltaView.Error
import DeltaView.Table

/-!
# Subscriptions

A hub hands batches of changes to its subscribers. Each has a queue of the batches that were
published since it last drained them. Subscriptions are numbered from one, and a number is never
used again.
-/

namespace DeltaView

abbrev Batch := List Change

structure Hub where
  /-- The number of the next subscription. -/
  next : Nat
  queues : Table Nat (List Batch)

namespace Hub

def empty : Hub := ⟨1, []⟩

def subscribe (h : Hub) : Hub × Nat := (⟨h.next + 1, h.queues.put h.next []⟩, h.next)

/-- Ends a subscription; what it has not drained is lost. -/
def unsubscribe (h : Hub) (id : Nat) : Except Error Hub :=
  match h.queues.get? id with
  | none => .error (.unknownSubscription id)
  | some _ => .ok { h with queues := h.queues.erase id }

/-- Adds a batch to every queue; an empty batch is not published. -/
def publish (h : Hub) (batch : Batch) : Hub :=
  if batch.isEmpty then h
  else { h with queues := h.queues.map fun (id, queue) => (id, queue ++ [batch]) }

/-- Takes the batches of a subscriber, the oldest one first. -/
def drain (h : Hub) (id : Nat) : Except Error (Hub × List Batch) :=
  match h.queues.get? id with
  | none => .error (.unknownSubscription id)
  | some queue => .ok ({ h with queues := h.queues.put id [] }, queue)

def size (h : Hub) : Nat := h.queues.length

end Hub

end DeltaView
