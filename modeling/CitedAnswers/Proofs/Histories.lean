import CitedAnswers.Proofs.Record

/-!
# Histories of runs

What a run has gone through is its history, and only moves make it longer. `Run.histories` says what
a history can look like and how a move bears on it, after any moves whatever, accepted or refused:
a history is a part of `Run.course` from its beginning on, or such a part that a failure has broken
off while work was under way, and each of these comes about.

Which moves a run admits is said without the functions that make them: an advance has to go to the
state that stands behind the present one in the course, a failure needs work under way
(`Run.Admits`). One case analysis shows that these are the moves that are made, each of which adds
the state it asks for, and that any other is refused (`Run.make_cases`). The shape of histories is
then an invariant of moves. It is kept because no state stands in the course twice: the end of a
part of the course tells which part it is.
-/

namespace CitedAnswers.Run

/-! ### Which moves are admitted -/

/-- The states of a query that is answered, in their order. -/
def course : List State := [.idle, .retrieving, .chunking, .synthesizing, .done]

/-- The state that a move asks for. -/
def Move.target : Move → State
  | advance s => s
  | fail => .failed

/-- **The moves that a run admits**: to advance to the state behind its own in the course, and to
fail with work under way. -/
def Admits (r : Run) : Move → Prop
  | .advance s => [r.state, s] <:+: course
  | .fail => r.state.isActive

theorem next?_eq_some_iff {s t : State} : s.next? = some t ↔ [s, t] <:+: course := by
  cases s <;> cases t <;> decide

/-- **What becomes of a move**: it is admitted and the run enters the state it asks for, or it is
refused. -/
theorem make_cases (r : Run) (m : Move) :
    (r.Admits m ∧ r.make m = .ok (r.enter m.target)) ∨
      (¬ r.Admits m ∧ r.make m = .error (.transition r.state.name m.target.name)) := by
  cases m with
  | advance s =>
    rw [Admits, ← next?_eq_some_iff]
    by_cases h : r.state.next? = some s
    · exact .inl ⟨h, if_pos h⟩
    · exact .inr ⟨h, if_neg h⟩
  | fail =>
    by_cases h : r.state.isActive
    · exact .inl ⟨h, if_pos h⟩
    · exact .inr ⟨h, if_neg h⟩

variable {r : Run} {m : Move}

theorem make_of_admits (h : r.Admits m) : r.make m = .ok (r.enter m.target) :=
  (r.make_cases m).elim And.right fun hnot ↦ absurd h hnot.1

theorem make_of_not_admits (h : ¬ r.Admits m) :
    r.make m = .error (.transition r.state.name m.target.name) :=
  (r.make_cases m).elim (fun hm ↦ absurd hm.1 h) And.right

theorem moved_of_admits (h : r.Admits m) : r.moved m = r.enter m.target := by
  rw [moved, make_of_admits h]
  rfl

theorem moved_of_not_admits (h : ¬ r.Admits m) : r.moved m = r := by
  rw [moved, make_of_not_admits h]
  rfl

/-- A run that has come to its end admits no move. -/
theorem not_admits_of_isTerminal (h : r.state.isTerminal) (m : Move) : ¬ r.Admits m := by
  have hnext : r.state.next? = none := by
    cases hs : r.state <;> rw [hs] at h <;> first | rfl | cases h
  have hactive : r.state.isActive = false := by
    cases hs : r.state <;> rw [hs] at h <;> first | rfl | cases h
  cases m with
  | advance s =>
    rw [Admits, ← next?_eq_some_iff, hnext]
    exact Option.some_ne_none s ∘ Eq.symm
  | fail =>
    rw [Admits, hactive]
    exact Bool.false_ne_true

theorem after_concat (r : Run) (ms : List Move) (m : Move) :
    r.after (ms ++ [m]) = (r.after ms).moved m :=
  List.foldl_concat ..

/-- A run that has come to its end stays as it is. -/
theorem after_of_isTerminal (h : r.state.isTerminal) (ms : List Move) : r.after ms = r := by
  induction ms with
  | nil => rfl
  | cons m ms ih =>
    rw [after, List.foldl_cons, moved_of_not_admits (not_admits_of_isTerminal h m)]
    exact ih

/-! ### Moves as work -/

/-- Makes a move as work on the run. -/
def moving (r : Run) : Move → Work (Except Failure Unit × Run)
  | .advance s => r.advancing s
  | .fail => r.failing

/-- **A move as work** comes to the same, reports only what is admitted, and hands on the run as the
move leaves it. -/
theorem yields_moving {r' : Run} {t : List Occurrence} {out : Except Failure Unit} :
    (r.moving m).Yields t (out, r') ↔
      t = (r.make m).toOption.toList.map (fun _ ↦ .noted (r.notice m.target)) ∧
        out = (r.make m).map (fun _ ↦ ()) ∧ r' = r.moved m := by
  have hmoving : r.moving m = r.move m.target (r.make m) := by cases m <;> rfl
  rw [hmoving, moved]
  cases r.make m <;> simp [move, Except.toOption, Except.map, eq_comm]

/-! ### What histories look like -/

/-- **A history**: a part of the course from its beginning on, or such a part that a failure has
broken off. The part broken off is neither the idle run alone nor the whole course. -/
inductive IsHistory : List State → Prop
  | ofCourse {h : List State} (begun : h ≠ []) (part : h <+: course) : IsHistory h
  | brokenOff {h : List State} (part : h <+: course) (two_le : 2 ≤ h.length)
    (le_four : h.length ≤ 4) : IsHistory (h ++ [.failed])

theorem history_eq (r : Run) : r.history = r.earlier.reverse ++ [r.state] := List.reverse_cons

/-- A part of the course goes on with the state behind its last one, as no state stands there
twice. -/
theorem append_isPrefix_course {h : List State} {s t : State} (hp : h ++ [s] <+: course)
    (hst : [s, t] <:+: course) : h ++ [s] ++ [t] <+: course := by
  obtain ⟨rest, hrest⟩ := hp
  obtain ⟨before, after, hafter⟩ := hst
  have hrest : h ++ s :: rest = course := by simpa using hrest
  have hafter : before ++ s :: t :: after = course := by simpa using hafter
  have hs : s ∉ h ++ rest := by
    have hnodup : (h ++ s :: rest).Nodup := hrest ▸ by decide
    exact (List.nodup_cons.1 (List.nodup_middle.1 hnodup)).1
  rw [List.mem_append, not_or] at hs
  obtain ⟨rfl, -, rfl⟩ :=
    (List.append_cons_inj_of_notMem hs.1 hs.2).1 (hrest.trans hafter.symm)
  exact ⟨after, by simpa using hrest⟩

/-- Work is under way if two to four states of the course are past. -/
theorem isActive_iff_length {h : List State} {s : State} (hp : h ++ [s] <+: course) :
    s.isActive ↔ 2 ≤ (h ++ [s]).length ∧ (h ++ [s]).length ≤ 4 := by
  have hlast : course[h.length]? = some s := by
    obtain ⟨rest, hrest⟩ := hp
    simp [← hrest]
  rw [List.length_append, List.length_singleton]
  -- One state after the other, up to the end of the course.
  generalize h.length = i at hlast
  rcases i with - | - | - | - | - | i <;> cases hlast <;> decide

/-- **A move keeps to the histories.** -/
theorem isHistory_moved (h : IsHistory r.history) (m : Move) : IsHistory (r.moved m).history := by
  by_cases hm : r.Admits m
  case neg => rwa [moved_of_not_admits hm]
  rw [moved_of_admits hm, history_enter]
  generalize hr : r.history = hs at h
  rw [history_eq] at hr
  cases h with
  | ofCourse begun part =>
    subst hr
    cases m with
    | advance s => exact .ofCourse (by simp) (append_isPrefix_course part hm)
    | fail =>
      obtain ⟨htwo, hfour⟩ := (isActive_iff_length part).1 hm
      exact .brokenOff part htwo hfour
  | brokenOff part htwo hfour =>
    have hstate : r.state = .failed := (List.append_inj' hr rfl).2 |> List.singleton_inj.1
    exact absurd hm (not_admits_of_isTerminal (by rw [hstate]; rfl) m)

/-- **Any moves keep to the histories.** -/
theorem isHistory_after (ms : List Move) : IsHistory (fresh.after ms).history := by
  induction ms using List.reverseRecOn with
  | nil => exact .ofCourse (by decide) (by decide)
  | append_singleton ms m ih =>
    rw [after_concat]
    exact isHistory_moved ih m

/-! ### Every history comes about -/

/-- A part of the course comes about by advancing through it. -/
theorem exists_history_eq_of_isPrefix {h : List State} (begun : h ≠ []) (part : h <+: course) :
    ∃ ms, (fresh.after ms).history = h := by
  refine ⟨h.tail.map .advance, ?_⟩
  have hmem : h ∈ course.inits := (List.mem_inits ..).2 part
  have hall : ∀ p ∈ course.inits, p ≠ [] → (fresh.after (p.tail.map .advance)).history = p := by
    decide
  exact hall h hmem begun

theorem exists_history_eq {h : List State} (hh : IsHistory h) :
    ∃ ms, (fresh.after ms).history = h := by
  cases hh with
  | ofCourse begun part => exact exists_history_eq_of_isPrefix begun part
  | @brokenOff p part htwo hfour =>
    obtain ⟨ms, hms⟩ := exists_history_eq_of_isPrefix (by rintro rfl; cases htwo) part
    refine ⟨ms ++ [.fail], ?_⟩
    have hactive : (fresh.after ms).Admits .fail := by
      rw [history_eq] at hms
      exact (isActive_iff_length (hms ▸ part)).2 (hms ▸ ⟨htwo, hfour⟩)
    rw [after_concat, moved_of_admits hactive, history_enter, hms]
    rfl

/-! ### The result -/

/-- **Histories of runs.** After any moves of a fresh run, accepted or refused:

* the history is of the shape of histories, its last state is that of the run, and there are no
  other histories than those that come about in this way;
* a move that is admitted is made and adds the one state it asks for, and any other is refused with
  the present state and the one asked for and leaves the history as it was; as work on the run a
  move comes to the same and reports nothing if it is refused;
* a run admits an advance to one state at most, and never to the failed one;
* a run that is done or has failed admits no further move, whatever moves are tried. -/
theorem histories (ms : List Move) :
    let r := fresh.after ms
    (IsHistory r.history ∧ r.history.getLast? = some r.state ∧
        ∀ h, IsHistory h → ∃ ms', (fresh.after ms').history = h) ∧
      (∀ m, (r.Admits m → r.make m = .ok (r.moved m) ∧
            (r.moved m).history = r.history ++ [m.target]) ∧
          (¬ r.Admits m → r.make m = .error (.transition r.state.name m.target.name) ∧
            (r.moved m).history = r.history) ∧
          ∀ t out r', (r.moving m).Yields t (out, r') ↔
            t = (r.make m).toOption.toList.map (fun _ ↦ .noted (r.notice m.target)) ∧
              out = (r.make m).map (fun _ ↦ ()) ∧ r' = r.moved m) ∧
      (∀ s, r.Admits (.advance s) → s ≠ .failed ∧ ∀ s', r.Admits (.advance s') → s' = s) ∧
      (r.state = .done ∨ r.state = .failed → ∀ ms' m, ¬ (r.after ms').Admits m) := by
  intro r
  refine ⟨⟨isHistory_after ms, ?_, fun h ↦ exists_history_eq⟩, fun m ↦ ⟨fun hm ↦ ?_, fun hm ↦ ?_,
    fun t out r' ↦ yields_moving⟩, fun s hs ↦ ?_, fun hend ms' m ↦ ?_⟩
  · rw [history_eq, List.getLast?_concat]
  · rw [moved_of_admits hm]
    exact ⟨make_of_admits hm, history_enter ..⟩
  · rw [moved_of_not_admits hm]
    exact ⟨make_of_not_admits hm, rfl⟩
  · have hnext : r.state.next? = some s := next?_eq_some_iff.2 hs
    refine ⟨?_, fun s' hs' ↦ ?_⟩
    · rintro rfl
      cases hstate : r.state <;> rw [hstate] at hnext <;> cases hnext
    · exact Option.some.inj ((next?_eq_some_iff.2 hs').symm.trans hnext)
  · have hterminal : r.state.isTerminal := by rcases hend with h | h <;> rw [h] <;> rfl
    rw [after_of_isTerminal hterminal]
    exact not_admits_of_isTerminal hterminal m

end CitedAnswers.Run
