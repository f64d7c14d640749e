import Itch.Lib.Run

/-!
# A shared component and its parties

A system of one shared component and a growing list of parties.  The shared component
moves by itself; a party joins in the state the shared component is in, and moves by
reading that state without changing it.

An invariant of such a system is one of the shared component and one of each party: it is
enough to look at one party at a time.
-/

namespace Lib

structure Hub (S C : Type*) where
  shared : S
  parties : List C

inductive HubAction (A B : Type*) where
  | shared (action : A)
  | join
  | party (i : Nat) (action : B)

namespace Hub

variable {S C A B : Type*} (move : S → A → Option S) (join : S → Option C)
  (act : S → C → B → Option C)

def step (h : Hub S C) : HubAction A B → Option (Hub S C)
  | .shared action => (move h.shared action).map fun shared => { h with shared := shared }
  | .join => (join h.shared).map fun c => { h with parties := h.parties ++ [c] }
  | .party i action =>
      (h.parties[i]?.bind fun c => act h.shared c action).map fun c =>
        { h with parties := h.parties.set i c }

/-- The shared component satisfies `I` and each party satisfies `J` with it. -/
def Holds (I : S → Prop) (J : S → C → Prop) (h : Hub S C) : Prop :=
  I h.shared ∧ ∀ c ∈ h.parties, J h.shared c

variable {move join act} {I : S → Prop} {J : S → C → Prop} {P : Hub S C → Prop}
  {start h h' : Hub S C}

theorem Holds.step {action : HubAction A B} (hold : Holds I J h)
    (hmove : ∀ s a s', I s → move s a = some s' → I s' ∧ ∀ c, J s c → J s' c)
    (hjoin : ∀ s c, I s → join s = some c → J s c)
    (hact : ∀ s c b c', I s → J s c → act s c b = some c' → J s c')
    (hstep : Hub.step move join act h action = some h') : Holds I J h' := by
  obtain ⟨hshared, hparties⟩ := hold
  cases action with
  | shared a =>
      obtain ⟨s, hs, rfl⟩ := Option.map_eq_some_iff.mp hstep
      obtain ⟨hI, hJ⟩ := hmove _ _ _ hshared hs
      exact ⟨hI, fun c hc => hJ c (hparties c hc)⟩
  | join =>
      obtain ⟨c, hc, rfl⟩ := Option.map_eq_some_iff.mp hstep
      refine ⟨hshared, fun c' hc' => ?_⟩
      rcases List.mem_append.mp hc' with hold | hnew
      · exact hparties c' hold
      · rw [List.mem_singleton.mp hnew]
        exact hjoin _ _ hshared hc
  | party i b =>
      obtain ⟨c', hc', rfl⟩ := Option.map_eq_some_iff.mp hstep
      obtain ⟨c, hget, hc⟩ := Option.bind_eq_some_iff.mp hc'
      have hJ := hact _ _ _ _ hshared (hparties c (List.mem_of_getElem? hget)) hc
      refine ⟨hshared, fun d hd => ?_⟩
      rcases List.mem_or_eq_of_mem_set hd with hold | rfl
      · exact hparties d hold
      · exact hJ

/-- What holds at the start, of the shared component and of each party, and is kept by the
moves of each holds in every state of a run. -/
theorem Holds.run (hrun : Run (Hub.step move join act) P start h) (hstart : Holds I J start)
    (hmove : ∀ s a s', I s → move s a = some s' → I s' ∧ ∀ c, J s c → J s' c)
    (hjoin : ∀ s c, I s → join s = some c → J s c)
    (hact : ∀ s c b c', I s → J s c → act s c b = some c' → J s c') : Holds I J h :=
  hrun.invariant (fun _ => hstart) fun _ _ _ _ hold hstep _ => hold.step hmove hjoin hact hstep

end Hub

end Lib
