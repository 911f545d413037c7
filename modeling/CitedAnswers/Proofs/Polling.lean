import CitedAnswers.Engine.Future

/-!
# Polling to the end

Polling work until it has finished leaves what running it at one go leaves, both the result and the
world, whatever the work is and however often its calls are polled in vain
(`Future.complete_unstarted`). Both sides read the same counts of earlier calls, so collaborators
that keep count are no exception.

`Future.complete` recurs along a relation of futures that no proof wants to look into. One equation
is all that is needed of it: a poll more or less makes no difference (`Future.complete_poll`).
-/

namespace CitedAnswers

namespace Future

variable {α : Type} (c : Collaborators)

theorem complete_of_value? {f : Future α} {a : α} (h : f.value? = some a) (w : World) :
    f.complete c w = (a, w) := by
  rw [complete]
  split
  · rename_i b hb
    rw [h] at hb
    cases hb
    rfl
  · rename_i hb
    rw [h] at hb
    cases hb

/-- A poll more or less makes no difference to what a future comes to. -/
theorem complete_poll (f : Future α) (w : World) :
    (f.poll c w).1.complete c (f.poll c w).2 = f.complete c w := by
  -- A finished future is not changed by a poll, and any other begins with this very poll.
  cases h : f.value? with
  | some a => rw [poll_of_isFinished (by rw [isFinished, h]; rfl)]
  | none =>
    conv => rhs; rw [complete]
    split
    · rename_i a ha
      rw [h] at ha
      cases ha
    · rfl

/-- Polls in vain leave no trace. -/
theorem complete_retrieving (polls : Nat) (q : Query)
    (more : Except Failure (List ScoredNode) → Work α) (w : World) :
    (retrieving polls q more).complete c w = (retrieving 0 q more).complete c w := by
  induction polls with
  | zero => rfl
  | succ polls ih => rw [← complete_poll, ← ih, poll]

/-- Polls in vain leave no trace. -/
theorem complete_predicting (polls : Nat) (p : String)
    (more : Except Failure String → Work α) (w : World) :
    (predicting polls p more).complete c w = (predicting 0 p more).complete c w := by
  induction polls with
  | zero => rfl
  | succ polls ih => rw [← complete_poll, ← ih, poll]

/-- Work that was done up to a call that has to be waited for comes to what it comes to at one
go. -/
theorem complete_advance (k : Work α) (w : World) :
    (k.advance c w).1.complete c (k.advance c w).2 = k.run c w := by
  induction k generalizing w with
  | done a => exact complete_of_value? c rfl w
  | note e more ih => exact ih _
  | count f n more ih => exact ih _
  | sum n more ih => exact ih _
  | start p x more ih => exact ih _ _
  | stop p x id more ih => exact ih _
  | retrieve q more ih =>
    rw [Work.advance]
    split
    · exact ih _ _
    · rw [complete_retrieving, ← complete_poll]
      exact ih _ _
  | predict p more ih =>
    rw [Work.advance]
    split
    · exact ih _ _
    · rw [complete_predicting, ← complete_poll]
      exact ih _ _

/-- **Polling to the end leaves what running leaves**, both the result and the world. -/
theorem complete_unstarted (k : Work α) (w : World) :
    (unstarted k).complete c w = k.run c w := by
  rw [← complete_poll]
  exact complete_advance c k w

end Future

theorem Work.perform_eq_run {α : Type} (c : Collaborators) (path : Path) (k : Work α) (w : World) :
    k.perform c path w = k.run c w := by
  cases path with
  | blocking => rfl
  | async => exact Future.complete_unstarted c k w

/-- Work one after another is run one after another. -/
theorem Work.run_bind {α β : Type} (c : Collaborators) (k : Work α) (f : α → Work β) (w : World) :
    (k.bind f).run c w = (f (k.run c w).1).run c (k.run c w).2 := by
  induction k generalizing w with
  | done a => rfl
  | note e more ih => exact ih _
  | count g n more ih => exact ih _
  | sum n more ih => exact ih _
  | start p x more ih => exact ih _ _
  | stop p x id more ih => exact ih _
  | retrieve q more ih => exact ih _ _
  | predict p more ih => exact ih _ _

end CitedAnswers
