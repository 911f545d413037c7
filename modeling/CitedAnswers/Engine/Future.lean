import CitedAnswers.Engine.Work

/-!
# Futures

A `Future` is work that is done piece by piece, by polling. It stops where a call of a collaborator
has to be waited for, and goes on at the poll after the last one in vain. Nothing is done before the
first poll.

A future that is polled often enough finishes: `Future.After`, the relation of a future to what one
poll makes of it, is well-founded, whatever the collaborators answer. So `Future.complete`, which
polls one future until it has finished, and `Future.completeAll`, which polls several in turn, are
total.
-/

namespace CitedAnswers

/-- Work that is done piece by piece. -/
inductive Future (α : Type) where
  | finished (a : α)
  /-- Work that has not begun. -/
  | unstarted (k : Work α)
  /-- Work before a call of the retriever, to be polled in vain so many more times. -/
  | retrieving (polls : Nat) (q : Query) (more : Except Failure (List ScoredNode) → Work α)
  /-- Work before a call of the model, to be polled in vain so many more times. -/
  | predicting (polls : Nat) (prompt : String) (more : Except Failure String → Work α)

variable {α : Type}

/-- Does work up to the next call that has to be waited for, or to its end. -/
def Work.advance (c : Collaborators) : Work α → World → Future α × World
  | .done a, w => (.finished a, w)
  | .note e more, w => more.advance c (w.record (.noted e))
  | .count f n more, w => more.advance c (w.record (.counted f n))
  | .sum n more, w => more.advance c (w.record (.summed n))
  | .start p x more, w => (more w.drawn).advance c (w.start p x)
  | .stop p x id more, w => more.advance c (w.record (.told ⟨.stop, p, x, id⟩))
  | .retrieve q more, w =>
    match c.retriever.delay w.asked q with
    | 0 => let (r, w) := w.ask c.retriever q; (more r).advance c w
    | polls + 1 => (.retrieving polls q more, w)
  | .predict p more, w =>
    match c.model.delay w.prompted p with
    | 0 => let (r, w) := w.prompt c.model p; (more r).advance c w
    | polls + 1 => (.predicting polls p more, w)

namespace Future

/-- The result, once there is one. -/
def value? : Future α → Option α
  | finished a => some a
  | _ => none

/-- Whether there is a result. -/
def isFinished (f : Future α) : Bool := f.value?.isSome

/-- Polls a future once. -/
def poll (c : Collaborators) : Future α → World → Future α × World
  | finished a, w => (finished a, w)
  | unstarted k, w => k.advance c w
  | retrieving (polls + 1) q more, w => (retrieving polls q more, w)
  | retrieving 0 q more, w => let (r, w) := w.ask c.retriever q; (more r).advance c w
  | predicting (polls + 1) p more, w => (predicting polls p more, w)
  | predicting 0 p more, w => let (r, w) := w.prompt c.model p; (more r).advance c w

/-! ### Polling comes to an end -/

/-- The relation of a future to what one poll makes of it, for some collaborators and some world. -/
def After (g f : Future α) : Prop :=
  f.isFinished = false ∧ ∃ (c : Collaborators) (w : World), (f.poll c w).1 = g

theorem acc_finished (a : α) : Acc After (finished a) :=
  Acc.intro _ fun _ h ↦ nomatch h.1

theorem acc_retrieving {q : Query} {more : Except Failure (List ScoredNode) → Work α}
    (h : ∀ r c w, Acc After ((more r).advance c w).1) (polls : Nat) :
    Acc After (retrieving polls q more) := by
  induction polls with
  | zero =>
    refine Acc.intro _ ?_
    rintro _ ⟨_, c, w, rfl⟩
    exact h _ _ _
  | succ polls ih =>
    refine Acc.intro _ ?_
    rintro _ ⟨_, c, w, rfl⟩
    exact ih

theorem acc_predicting {p : String} {more : Except Failure String → Work α}
    (h : ∀ r c w, Acc After ((more r).advance c w).1) (polls : Nat) :
    Acc After (predicting polls p more) := by
  induction polls with
  | zero =>
    refine Acc.intro _ ?_
    rintro _ ⟨_, c, w, rfl⟩
    exact h _ _ _
  | succ polls ih =>
    refine Acc.intro _ ?_
    rintro _ ⟨_, c, w, rfl⟩
    exact ih

theorem acc_advance (c : Collaborators) (k : Work α) (w : World) :
    Acc After (k.advance c w).1 := by
  induction k generalizing c w with
  | done a => exact acc_finished a
  | note e more ih => exact ih c _
  | count f n more ih => exact ih c _
  | sum n more ih => exact ih c _
  | start p x more ih => exact ih _ c _
  | stop p x id more ih => exact ih c _
  | retrieve q more ih =>
    simp only [Work.advance]
    split
    · exact ih _ c _
    · exact acc_retrieving ih _
  | predict p more ih =>
    simp only [Work.advance]
    split
    · exact ih _ c _
    · exact acc_predicting ih _

theorem wellFounded_after : WellFounded (After (α := α)) :=
  WellFounded.intro fun f ↦ match f with
    | finished a => acc_finished a
    | unstarted k => Acc.intro _ fun _ ⟨_, c, w, h⟩ ↦ h ▸ acc_advance c k w
    | retrieving polls _ more => acc_retrieving (fun r c w ↦ acc_advance c (more r) w) polls
    | predicting polls _ more => acc_predicting (fun r c w ↦ acc_advance c (more r) w) polls

instance : WellFoundedRelation (Future α) := ⟨After, wellFounded_after⟩

theorem after_poll {f : Future α} (h : f.value? = none) (c : Collaborators) (w : World) :
    After (f.poll c w).1 f :=
  ⟨by simp [isFinished, h], c, w, rfl⟩

/-- Polls a future until it has finished. -/
def complete (c : Collaborators) (f : Future α) (w : World) : α × World :=
  match h : f.value? with
  | some a => (a, w)
  | none =>
    have := after_poll h c w
    complete c (f.poll c w).1 (f.poll c w).2
termination_by f
decreasing_by assumption

/-! ### Several futures -/

/-- Polls each of several futures once, in their order. -/
def round (c : Collaborators) : List (Future α) → World → List (Future α) × World
  | [], w => ([], w)
  | f :: fs, w =>
    let (g, w) := f.poll c w
    let (gs, w) := round c fs w
    (g :: gs, w)

/-- The relation of several futures to what one round makes of them, as long as one of them has not
finished: the first of those comes after what it was. -/
inductive RoundAfter : List (Future α) → List (Future α) → Prop where
  | head {f g : Future α} {fs gs : List (Future α)} (h : After g f) (hl : gs.length = fs.length) :
    RoundAfter (g :: gs) (f :: fs)
  | tail {f : Future α} {fs gs : List (Future α)} (h : RoundAfter gs fs) :
    RoundAfter (f :: gs) (f :: fs)

theorem RoundAfter.length_eq {fs gs : List (Future α)} (h : RoundAfter gs fs) :
    gs.length = fs.length := by
  induction h with
  | head _ hl => simp [hl]
  | tail _ ih => simp [ih]

theorem acc_roundAfter (n : Nat) (fs : List (Future α)) (h : fs.length = n) :
    Acc RoundAfter fs := by
  induction n generalizing fs with
  | zero =>
    rw [List.length_eq_zero_iff.1 h]
    exact Acc.intro _ fun _ h ↦ nomatch h
  | succ n ih =>
    match fs, h with
    | f :: fs, h =>
      have hl : fs.length = n := by simpa using h
      -- The first future may start afresh with any others, so it is what the outer induction is on.
      induction f using wellFounded_after.induction generalizing fs with
      | _ f ihf =>
        have hacc := ih fs hl
        clear h
        induction hacc with
        | intro fs hfs ihfs =>
          refine Acc.intro _ fun gs hgs ↦ ?_
          cases hgs with
          | head hg hgl => exact ihf _ hg _ (by simp [hgl, hl]) (hgl.trans hl)
          | tail hg => exact ihfs _ hg (hg.length_eq.trans hl)

theorem wellFounded_roundAfter : WellFounded (RoundAfter (α := α)) :=
  WellFounded.intro fun fs ↦ acc_roundAfter fs.length fs rfl

instance : WellFoundedRelation (List (Future α)) := ⟨RoundAfter, wellFounded_roundAfter⟩

theorem length_round (c : Collaborators) (fs : List (Future α)) (w : World) :
    (round c fs w).1.length = fs.length := by
  induction fs generalizing w with
  | nil => rfl
  | cons f fs ih => simp [round, ih]

theorem poll_of_isFinished {f : Future α} (h : f.isFinished) (c : Collaborators) (w : World) :
    f.poll c w = (f, w) := by
  cases f <;> first | rfl | cases h

theorem roundAfter_round (c : Collaborators) {fs : List (Future α)} (w : World)
    (h : fs.all isFinished = false) : RoundAfter (round c fs w).1 fs := by
  induction fs generalizing w with
  | nil => simp at h
  | cons f fs ih =>
    by_cases hf : f.isFinished
    · simp only [round, poll_of_isFinished hf]
      exact .tail (ih w (by simpa [hf] using h))
    · exact .head ⟨by simpa using hf, c, w, rfl⟩ (length_round c fs _)

/-- Polls several futures in turn until all have finished. -/
def completeAll (c : Collaborators) (fs : List (Future α)) (w : World) : List α × World :=
  match h : fs.all isFinished with
  | true => (fs.filterMap value?, w)
  | false =>
    have := roundAfter_round c w h
    completeAll c (round c fs w).1 (round c fs w).2
termination_by fs
decreasing_by assumption

end Future

/-- Does work on the given path: at one go, or by polling until it has finished. -/
def Work.perform (c : Collaborators) (path : Path) (k : Work α) (w : World) : α × World :=
  match path with
  | .blocking => k.run c w
  | .async => (Future.unstarted k).complete c w

end CitedAnswers
