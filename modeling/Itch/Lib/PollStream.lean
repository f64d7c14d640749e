import Mathlib.Init

/-!
# Streams that are polled

A stream answers a poll with an item, with its end or with nothing yet.  What it yields is
what a caller collects that polls it until the end.  A stream may keep a log of what it has
answered.
-/

namespace Lib

variable {σ α : Type} {poll : σ → Option (Option α) × σ}

/-- The items of a stream up to its end.  A poll is answered by `none` as long as the
stream is not ready, and by `some none` at the end. -/
inductive Yields (poll : σ → Option (Option α) × σ) : σ → List α → Prop
  | done {s s' : σ} : poll s = (some none, s') → Yields poll s []
  | item {s s' : σ} {a : α} {as : List α} :
      poll s = (some (some a), s') → Yields poll s' as → Yields poll s (a :: as)
  | pending {s s' : σ} {as : List α} :
      poll s = (none, s') → Yields poll s' as → Yields poll s as

namespace Yields

/-- A stream yields one list of items. -/
theorem unique {s : σ} {as bs : List α} (has : Yields poll s as) (hbs : Yields poll s bs) :
    as = bs := by
  induction has generalizing bs with
  | done h =>
      cases hbs with
      | done => rfl
      | item h' | pending h' => cases h.symm.trans h'
  | item h _ ih =>
      cases hbs with
      | item h' hbs =>
          cases h.symm.trans h'
          rw [ih hbs]
      | done h' | pending h' => cases h.symm.trans h'
  | pending h _ ih =>
      cases hbs with
      | pending h' hbs =>
          cases h.symm.trans h'
          exact ih hbs
      | done h' | item h' => cases h.symm.trans h'

/-- What a stream yields depends on the first poll alone. -/
theorem of_poll_eq {s t : σ} {as : List α} (h : poll s = poll t) (ht : Yields poll t as) :
    Yields poll s as := by
  cases ht with
  | done hp => exact .done (h.trans hp)
  | item hp hrest => exact .item (h.trans hp) hrest
  | pending hp hrest => exact .pending (h.trans hp) hrest

end Yields

/-! ## Logs -/

/-- The same stream with its answers so far, oldest first, those apart that say nothing yet. -/
def logged (poll : σ → Option (Option α) × σ) :
    σ × List (Option α) → Option (Option α) × σ × List (Option α)
  | (s, log) => ((poll s).1, (poll s).2, log ++ (poll s).1.toList)

theorem log_of_logged {s s' : σ × List (Option α)} {answer : Option (Option α)}
    (h : logged poll s = (answer, s')) : s'.2 = s.2 ++ answer.toList := by
  cases h
  rfl

end Lib
