import Itch.Lib.Run

/-!
# Calls of a shared service

A service and the calls that were made of it, which take turns.  A call is a little program: at
each of its turns it does one thing with the state of the service, in one piece, and goes on.
The state also moves by itself.

Since every call may change the state, what holds of one call has to survive the turns of all
others.  A relation `R` says how the state may change, and `Sound` collects what makes an
invariant of the state and of each call one of the system: every turn is allowed by `R`, and what
`R` allows keeps the invariant of the calls that wait.  `Sound.follow` is the rule for what holds
of one call only.
-/

namespace Lib

structure Service (S C : Type*) where
  state : S
  /-- The calls, in the order in which they began; a call that has returned stays. -/
  calls : List C

inductive ServiceAction (E Q B : Type*) where
  /-- The state moves by itself. -/
  | move (event : E)
  /-- A call begins. -/
  | begin (request : Q)
  /-- A call has its turn. -/
  | turn (i : Nat) (choice : B)

namespace Service

variable {S C E Q B : Type*}

/-- The service with one more call. -/
def opened (call : S → Q → C) (h : Service S C) (request : Q) : Service S C :=
  { h with calls := h.calls ++ [call h.state request] }

def step (move : S → E → Option S) (call : S → Q → C) (act : S → C → B → Option (S × C))
    (h : Service S C) : ServiceAction E Q B → Option (Service S C)
  | .move event => (move h.state event).map fun s => { h with state := s }
  | .begin request => some (opened call h request)
  | .turn i choice =>
      (h.calls[i]?.bind fun c => act h.state c choice).map fun r =>
        { state := r.1, calls := h.calls.set i r.2 }

/-- What a step can do. -/
inductive Moves (move : S → E → Option S) (call : S → Q → C) (act : S → C → B → Option (S × C))
    (h : Service S C) : Service S C → Prop where
  | move {event : E} {s : S} : move h.state event = some s →
      Moves move call act h { h with state := s }
  | begin (request : Q) : Moves move call act h (opened call h request)
  | turn {i : Nat} {choice : B} {c c' : C} {s : S} : h.calls[i]? = some c →
      act h.state c choice = some (s, c') →
      Moves move call act h { state := s, calls := h.calls.set i c' }

variable {move : S → E → Option S} {call : S → Q → C} {act : S → C → B → Option (S × C)}
  {h h' start : Service S C} {P : Service S C → Prop} {I : S → Prop} {J K : S → C → Prop}
  {R : S → S → Prop} {i : Nat} {c : C}

theorem step_moves {action : ServiceAction E Q B} (hstep : step move call act h action = some h') :
    Moves move call act h h' := by
  cases action with
  | move event =>
      obtain ⟨s, hs, rfl⟩ := Option.map_eq_some_iff.mp hstep
      exact .move hs
  | begin request =>
      cases hstep
      exact .begin request
  | turn i choice =>
      obtain ⟨⟨s, c'⟩, hr, rfl⟩ := Option.map_eq_some_iff.mp hstep
      obtain ⟨c, hget, hact⟩ := Option.bind_eq_some_iff.mp hr
      exact .turn hget hact

/-- The state satisfies `I` and each call satisfies `J` with it. -/
def Holds (I : S → Prop) (J : S → C → Prop) (h : Service S C) : Prop :=
  I h.state ∧ ∀ c ∈ h.calls, J h.state c

/-- What makes `I` and `J` invariants, if the states of the system satisfy `P`. -/
structure Sound (move : S → E → Option S) (call : S → Q → C) (act : S → C → B → Option (S × C))
    (P : Service S C → Prop) (I : S → Prop) (J : S → C → Prop) (R : S → S → Prop) : Prop where
  stable : ∀ {s s' c}, I s → R s s' → J s c → J s' c
  move : ∀ {s event s'}, I s → move s event = some s' → I s' ∧ R s s'
  begin : ∀ {h request}, P (opened call h request) → I h.state → J h.state (call h.state request)
  turn : ∀ {h c choice s c'}, P h → c ∈ h.calls → I h.state → J h.state c →
    act h.state c choice = some (s, c') → I s ∧ R h.state s ∧ J s c'

theorem Sound.moves (hsound : Sound move call act P I J R) (hP : P h) (hP' : P h')
    (hold : Holds I J h) (hmoves : Moves move call act h h') : Holds I J h' := by
  obtain ⟨hI, hJ⟩ := hold
  cases hmoves with
  | move hmove =>
      obtain ⟨hI', hR⟩ := hsound.move hI hmove
      exact ⟨hI', fun c hc => hsound.stable hI hR (hJ c hc)⟩
  | begin request =>
      refine ⟨hI, fun c hc => ?_⟩
      rcases List.mem_append.mp hc with hold | hnew
      · exact hJ c hold
      · rw [List.mem_singleton.mp hnew]
        exact hsound.begin (h := h) hP' hI
  | turn hget hact =>
      have hmem := List.mem_of_getElem? hget
      obtain ⟨hI', hR, hc'⟩ := hsound.turn hP hmem hI (hJ _ hmem) hact
      refine ⟨hI', fun d hd => ?_⟩
      rcases List.mem_or_eq_of_mem_set hd with hold | rfl
      · exact hsound.stable hI hR (hJ d hold)
      · exact hc'

theorem Sound.run (hsound : Sound move call act P I J R)
    (hrun : Run (step move call act) P start h) (hstart : Holds I J start) : Holds I J h :=
  hrun.invariant (fun _ => hstart) fun _ _ _ hP hold hstep hP' =>
    hsound.moves hP hP' hold (step_moves hstep)

/-- What holds of a call, is kept by its own turns and along `R` holds of it from then on. -/
theorem Sound.follow (hsound : Sound move call act P I J R)
    (hrun : Run (step move call act) P start h) (hstart : Holds I J start)
    (hcall : ∃ c, start.calls[i]? = some c ∧ K start.state c)
    (hstable : ∀ {s s' c}, I s → R s s' → K s c → K s' c)
    (hturn : ∀ {h c choice s c'}, P h → c ∈ h.calls → I h.state → J h.state c → K h.state c →
      act h.state c choice = some (s, c') → K s c') :
    ∃ c, h.calls[i]? = some c ∧ K h.state c := by
  induction hrun with
  | start => exact hcall
  | @step h h' a hrun hstep hP' ih =>
      obtain ⟨hI, hJ⟩ := hsound.run hrun hstart
      obtain ⟨c, hc, hK⟩ := ih
      have hmem := List.mem_of_getElem? hc
      cases step_moves hstep with
      | move hmove => exact ⟨c, hc, hstable hI (hsound.move hI hmove).2 hK⟩
      | begin request =>
          refine ⟨c, ?_, hK⟩
          rw [opened, List.getElem?_append_left (List.getElem?_eq_some_iff.mp hc).1]
          exact hc
      | @turn j _ d d' s hget hact =>
          by_cases hij : j = i
          · obtain rfl := hij
            obtain rfl : c = d := Option.some.inj (hc.symm.trans hget)
            refine ⟨d', ?_, hturn hrun.good hmem hI (hJ c hmem) hK hact⟩
            rw [List.getElem?_set_self (List.getElem?_eq_some_iff.mp hc).1]
          · obtain ⟨-, hR, -⟩ := hsound.turn hrun.good (List.mem_of_getElem? hget) hI
              (hJ d (List.mem_of_getElem? hget)) hact
            refine ⟨c, ?_, hstable hI hR hK⟩
            rw [List.getElem?_set_ne hij]
            exact hc

/-- The same of a call from its beginning on. -/
theorem Sound.follow_opened {request : Q} (hsound : Sound move call act P I J R) (hP : P h)
    (hhold : Holds I J h) (hrun : Run (step move call act) P (opened call h request) h')
    (hcall : K h.state (call h.state request))
    (hstable : ∀ {s s' c}, I s → R s s' → K s c → K s' c)
    (hturn : ∀ {h c choice s c'}, P h → c ∈ h.calls → I h.state → J h.state c → K h.state c →
      act h.state c choice = some (s, c') → K s c')
    (hget : h'.calls[h.calls.length]? = some c) : K h'.state c := by
  have hopened := hsound.moves hP hrun.start_good hhold (.begin request)
  have hfirst : ∃ c, (opened call h request).calls[h.calls.length]? = some c ∧
      K (opened call h request).state c := by
    refine ⟨call h.state request, ?_, hcall⟩
    rw [opened, List.getElem?_append_right le_rfl, Nat.sub_self]
    rfl
  obtain ⟨c', hc', hK⟩ := hsound.follow hrun hopened hfirst hstable hturn
  obtain rfl := Option.some.inj (hget.symm.trans hc')
  exact hK

end Service

end Lib
