import Mathlib.Tactic

/-!
# Bounded mailboxes

Many senders and one receiver share a queue of bounded length.  A sender never waits: what it
sends is lost if the queue is full or the receiver is gone.

`arrived` is everything the mailbox has taken and not lost, in order, and `sentBy` the part of one
sender.  What one sender does leaves the parts of the others as they are.
-/

namespace Lib

/-- A mailbox of entries that carry their sender. -/
structure Mailbox (ι α : Type*) (capacity : Nat) where
  queue : List (ι × α)
  /-- What the receiver has taken so far. -/
  taken : List (ι × α)
  /-- Whether the receiver is gone. -/
  gone : Bool
  length_le : queue.length ≤ capacity
deriving Repr, DecidableEq

namespace Mailbox

variable {ι α : Type*} {capacity : Nat}

def new : Mailbox ι α capacity where
  queue := []
  taken := []
  gone := false
  length_le := Nat.zero_le _

/-- An entry that is sent now is kept. -/
def Room (m : Mailbox ι α capacity) : Prop :=
  m.queue.length < capacity ∧ m.gone = false

instance (m : Mailbox ι α capacity) : Decidable m.Room :=
  inferInstanceAs (Decidable (_ ∧ _))

def trySend (m : Mailbox ι α capacity) (i : ι) (a : α) : Mailbox ι α capacity :=
  if h : m.Room then
    { m with queue := m.queue ++ [(i, a)], length_le := by simpa using h.1 }
  else m

/-- The receiver takes the oldest entry. -/
def recv (m : Mailbox ι α capacity) : Option (Mailbox ι α capacity) :=
  if m.gone then none
  else
    m.queue.head?.map fun e =>
      { m with
        queue := m.queue.tail
        taken := m.taken ++ [e]
        length_le := (m.queue.length_tail ▸ Nat.sub_le _ _).trans m.length_le }

/-- The receiver goes, and with it what it has not taken. -/
def dropReceiver (m : Mailbox ι α capacity) : Mailbox ι α capacity :=
  { m with queue := [], gone := true, length_le := Nat.zero_le _ }

def arrived (m : Mailbox ι α capacity) : List (ι × α) :=
  m.taken ++ m.queue

variable {m m' : Mailbox ι α capacity} {i j : ι} {a : α}

theorem arrived_trySend_of_room (h : m.Room) :
    (m.trySend i a).arrived = m.arrived ++ [(i, a)] := by
  rw [trySend, dif_pos h, arrived, arrived, List.append_assoc]

theorem trySend_of_not_room (h : ¬ m.Room) : m.trySend i a = m := dif_neg h

theorem arrived_recv (h : m.recv = some m') : m'.arrived = m.arrived := by
  unfold recv at h
  split at h
  next => cases h
  next =>
    obtain ⟨e, he, rfl⟩ := Option.map_eq_some_iff.mp h
    rw [arrived, arrived, List.append_assoc, List.singleton_append,
      List.cons_head?_tail he]

theorem arrived_dropReceiver (m : Mailbox ι α capacity) :
    m.dropReceiver.arrived.Sublist m.arrived := by
  rw [arrived, dropReceiver, List.append_nil, arrived]
  exact List.sublist_append_left _ _

section SentBy

variable [DecidableEq ι]

/-- What has arrived from one sender. -/
def sentBy (m : Mailbox ι α capacity) (i : ι) : List α :=
  (m.arrived.filter fun e => e.1 = i).map Prod.snd

theorem sentBy_trySend_self (h : m.Room) : (m.trySend i a).sentBy i = m.sentBy i ++ [a] := by
  simp [sentBy, arrived_trySend_of_room h]

theorem sentBy_trySend_ne (h : i ≠ j) : (m.trySend i a).sentBy j = m.sentBy j := by
  by_cases hroom : m.Room
  · simp [sentBy, arrived_trySend_of_room hroom, h]
  · rw [trySend_of_not_room hroom]

/-- What is sent arrives, or nothing changes. -/
theorem sentBy_trySend_sublist {as : List α} (h : (m.sentBy i).Sublist as) :
    ((m.trySend i a).sentBy i).Sublist (as ++ [a]) := by
  by_cases hroom : m.Room
  · rw [sentBy_trySend_self hroom]
    exact h.append (List.Sublist.refl _)
  · rw [trySend_of_not_room hroom]
    exact h.trans (List.sublist_append_left _ _)

theorem sentBy_recv (h : m.recv = some m') (i : ι) : m'.sentBy i = m.sentBy i := by
  rw [sentBy, sentBy, arrived_recv h]

theorem sentBy_dropReceiver (m : Mailbox ι α capacity) (i : ι) :
    (m.dropReceiver.sentBy i).Sublist (m.sentBy i) :=
  (m.arrived_dropReceiver.filter _).map _

end SentBy

end Mailbox

end Lib
