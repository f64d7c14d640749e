import Mathlib.Tactic

/-!
# Runs of a transition system

A system moves by a partial step function: the actions that are not enabled have no
result.  `Run step P start s` says that `s` is reached from `start` through states that
all satisfy `P`, which is where the assumptions on an environment go.

A system whose step is total runs as a fold over its inputs.  `Along f C s as` says that
every input meets `C` at the state it finds.
-/

namespace Lib

variable {S A : Type*} {step : S → A → Option S} {P Q I : S → Prop} {start s : S}

/-- Reached from `start` through states that satisfy `P`. -/
inductive Run (step : S → A → Option S) (P : S → Prop) (start : S) : S → Prop where
  | start : P start → Run step P start start
  | step {s s' : S} {a : A} :
      Run step P start s → step s a = some s' → P s' → Run step P start s'

namespace Run

theorem good (h : Run step P start s) : P s := by
  cases h with
  | start h => exact h
  | step _ _ h => exact h

theorem start_good (h : Run step P start s) : P start := by
  induction h with
  | start h => exact h
  | step _ _ _ ih => exact ih

/-- What holds at the start and is kept by every step holds in every state reached. -/
theorem invariant (h : Run step P start s) (hstart : P start → I start)
    (hstep : ∀ s a s', P s → I s → step s a = some s' → P s' → I s') : I s := by
  induction h with
  | start h => exact hstart h
  | step hrun heq hgood ih => exact hstep _ _ _ hrun.good ih heq hgood

/-- A relation that every step keeps, with a step of another system or with none, takes a run to
a run. -/
theorem simulates {T B : Type*} {step' : T → B → Option T} {Q : T → Prop} {R : S → T → Prop}
    {start' : T} (h : Run step P start s) (hstart : R start start') (hgood : Q start')
    (hstep : ∀ s a s' t, R s t → step s a = some s' → P s' →
      R s' t ∨ ∃ b t', step' t b = some t' ∧ Q t' ∧ R s' t') :
    ∃ t, Run step' Q start' t ∧ R s t := by
  induction h with
  | start => exact ⟨start', .start hgood, hstart⟩
  | step _ heq hP ih =>
      obtain ⟨t, hrun, hR⟩ := ih
      rcases hstep _ _ _ _ hR heq hP with hsame | ⟨b, t', hb, hQ, hR'⟩
      · exact ⟨t, hrun, hsame⟩
      · exact ⟨t', hrun.step hb hQ, hR'⟩

end Run

/-- The state a list of actions leads to, through states that satisfy `P`. -/
def exec (step : S → A → Option S) (P : S → Prop) [DecidablePred P] : S → List A → Option S
  | s, [] => some s
  | s, a :: as => (step s a).bind fun s => if P s then exec step P s as else none

/-- A list of actions that leads somewhere is a run. -/
theorem Run.exec [DecidablePred P] {s' : S} {as : List A} (h : Run step P start s)
    (hexec : Lib.exec step P s as = some s') : Run step P start s' := by
  induction as generalizing s with
  | nil =>
      cases hexec
      exact h
  | cons a as ih =>
      obtain ⟨t, hstep, hrest⟩ := Option.bind_eq_some_iff.mp hexec
      split at hrest
      next ht => exact ih (h.step hstep ht) hrest
      next => cases hrest

/-- A list of actions that leads to a state of which something can be computed. -/
theorem exists_run_of_exec {β : Type*} [DecidablePred P] (as : List A) (f : S → β) {x : β}
    (hstart : P start) (h : (exec step P start as).map f = some x) :
    ∃ s, Run step P start s ∧ f s = x := by
  obtain ⟨s, hexec, hx⟩ := Option.map_eq_some_iff.mp h
  exact ⟨s, (Run.start hstart).exec hexec, hx⟩

theorem exec_append [DecidablePred P] {as bs : List A} :
    exec step P s (as ++ bs) = (exec step P s as).bind fun s => exec step P s bs := by
  induction as generalizing s with
  | nil => rfl
  | cons a as ih =>
      simp only [List.cons_append, exec, Option.bind_assoc]
      congr
      funext t
      split
      next => exact ih
      next => rfl

/-- It is enough that the actions keep the assumption. -/
theorem Run.exec_of_keeps {s' : S} {as : List A} (h : Run step P start s)
    (hkeep : ∀ s a s', a ∈ as → P s → step s a = some s' → P s')
    (hexec : Lib.exec step (fun _ => True) s as = some s') : Run step P start s' := by
  induction as generalizing s with
  | nil =>
      cases hexec
      exact h
  | cons a as ih =>
      obtain ⟨t, hstep, hrest⟩ := Option.bind_eq_some_iff.mp hexec
      rw [if_pos trivial] at hrest
      exact ih (h.step hstep (hkeep s a t List.mem_cons_self h.good hstep))
        (fun s b s' hb => hkeep s b s' (List.mem_cons_of_mem a hb)) hrest

/-- `C` holds of every element of a list, at the state the fold has reached before it. -/
def Along (f : S → A → S) (C : S → A → Prop) : S → List A → Prop
  | _, [] => True
  | s, a :: as => C s a ∧ Along f C (f s a) as

instance instDecidableAlong {f : S → A → S} {C : S → A → Prop} [∀ s a, Decidable (C s a)] :
    (s : S) → (as : List A) → Decidable (Along f C s as)
  | _, [] => inferInstanceAs (Decidable True)
  | s, a :: as =>
      have := instDecidableAlong (f := f) (C := C) (f s a) as
      inferInstanceAs (Decidable (C s a ∧ Along f C (f s a) as))

theorem along_of_forall {f : S → A → S} {C : S → A → Prop} {as : List A} (h : ∀ s a, C s a) :
    Along f C s as := by
  induction as generalizing s with
  | nil => trivial
  | cons a as ih => exact ⟨h s a, ih⟩

/-- A predicate on feeds that goes from state to state holds along the fold. -/
theorem along_iff {f : S → A → S} {C : S → A → Prop} {Feed : S → List A → Prop} {as : List A}
    (hnil : ∀ s, Feed s []) (hcons : ∀ s a as, Feed s (a :: as) ↔ C s a ∧ Feed (f s a) as) :
    Feed s as ↔ Along f C s as := by
  induction as generalizing s with
  | nil => exact iff_of_true (hnil s) trivial
  | cons a as ih => exact (hcons s a as).trans (and_congr_right fun _ => ih)

/-- If a step from a good state reaches a state with `P` exactly under `C`, and is then good
again, `P` holds throughout a fold exactly if `C` holds along it. -/
theorem forall_prefix_iff_along {f : S → A → S} {C F : S → A → Prop} {as : List A}
    (hfeed : Along f F s as) (hs : I s) (hgood : ∀ s, I s → P s)
    (hstep : ∀ s a, I s → F s a → C s a → I (f s a))
    (hfail : ∀ s a, I s → F s a → P (f s a) → C s a) :
    (∀ before, before <+: as → P (before.foldl f s)) ↔ Along f C s as := by
  induction as generalizing s with
  | nil =>
      refine iff_of_true (fun before hbefore => ?_) trivial
      rw [List.prefix_nil.mp hbefore]
      exact hgood s hs
  | cons a as ih =>
      obtain ⟨ha, hrest⟩ := hfeed
      constructor
      · intro h
        have hC : C s a := hfail s a hs ha (h [a] (List.prefix_cons_iff.mpr
          (.inr ⟨[], rfl, List.nil_prefix⟩)))
        refine ⟨hC, (ih hrest (hstep s a hs ha hC)).mp fun before hbefore => ?_⟩
        exact h (a :: before) (List.cons_prefix_cons.mpr ⟨rfl, hbefore⟩)
      · rintro ⟨hC, hfeed⟩ before hbefore
        rcases List.prefix_cons_iff.mp hbefore with rfl | ⟨before', rfl, hbefore'⟩
        · exact hgood s hs
        · exact (ih hrest (hstep s a hs ha hC)).mpr hfeed before' hbefore'

/-- A fold of a partial step that always has the result of a total one. -/
theorem foldlM_eq_some_foldl {g : S → A → Option S} {f : S → A → S} {as : List A}
    (h : ∀ s, ∀ a ∈ as, g s a = some (f s a)) : as.foldlM g s = some (as.foldl f s) := by
  induction as generalizing s with
  | nil => rfl
  | cons a as ih =>
      rw [List.foldlM_cons, h s a List.mem_cons_self]
      exact ih fun s b hb => h s b (List.mem_cons_of_mem a hb)

/-- If a partial step from a good state has the result of a total one exactly under `C`, its
fold is defined exactly along `C`. -/
theorem isSome_foldlM_iff_along {g : S → A → Option S} {f : S → A → S} {C : S → A → Prop}
    {as : List A} (hs : I s) (hstep : ∀ s a, I s → C s a → g s a = some (f s a) ∧ I (f s a))
    (hfail : ∀ s a, I s → ¬ C s a → g s a = none) :
    (as.foldlM g s).isSome ↔ Along f C s as := by
  induction as generalizing s with
  | nil => exact iff_of_true rfl trivial
  | cons a as ih =>
      rw [List.foldlM_cons, Along]
      by_cases ha : C s a
      · obtain ⟨heq, hgood⟩ := hstep s a hs ha
        rw [heq, and_iff_right ha]
        exact ih hgood
      · rw [hfail s a hs ha]
        exact iff_of_false Bool.false_ne_true fun h => ha h.1

/-- A fold may drop the elements that do nothing in the states it goes through. -/
theorem foldl_filter_of_skip {f : S → A → S} {p : A → Bool} {l : List A}
    (hkeep : ∀ s, ∀ a ∈ l, I s → I (f s a)) (hskip : ∀ s, ∀ a ∈ l, I s → p a = false → f s a = s)
    (hs : I s) : l.foldl f s = (l.filter p).foldl f s := by
  induction l generalizing s with
  | nil => rfl
  | cons a l ih =>
      have hrest := ih (fun s b hb => hkeep s b (List.mem_cons_of_mem a hb))
        (fun s b hb => hskip s b (List.mem_cons_of_mem a hb))
        (hkeep s a List.mem_cons_self hs)
      cases hp : p a with
      | true => rw [List.filter_cons_of_pos hp, List.foldl_cons, List.foldl_cons, hrest]
      | false =>
          rw [List.foldl_cons, hrest, hskip s a List.mem_cons_self hs hp, List.filter_cons_of_neg]
          simp [hp]

/-! ## Logs -/

/-- `Q` holds of every entry of a log and the entries before it. -/
def AtEach (Q : List A → A → Prop) (log : List A) : Prop :=
  ∀ before a after, log = before ++ a :: after → Q before a

section Logs

variable {Q : List A → A → Prop} {log : List A} {a : A}

theorem AtEach.nil : AtEach Q [] := by
  intro before a after hlog
  simp at hlog

theorem AtEach.concat (h : AtEach Q log) (ha : Q log a) : AtEach Q (log ++ [a]) := by
  intro before b after hlog
  rcases List.eq_nil_or_concat after with rfl | ⟨after, c, rfl⟩
  · obtain ⟨rfl, hb⟩ := List.append_inj' hlog rfl
    cases hb
    exact ha
  · rw [List.concat_eq_append, ← List.cons_append, ← List.append_assoc] at hlog
    exact h before b after (List.append_inj' hlog rfl).1

end Logs

end Lib
