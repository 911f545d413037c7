import CitedAnswers.Proofs.Execution
import Mathlib.Data.List.Pairwise

/-!
# Work in any order

Several pieces of work are polled one at a time, in any order and any number of times. An
`Interleaving` keeps, besides what is left of each, a log of what happened in which every occurrence
is tagged with the work that was polled; `Interleaving.own` picks out what one work has left behind.

Whatever the order is, the log as a whole is one that the world admits, and what each work has left
behind is an execution of that work alone (`Interleaving.Follows`). So what can be said of the work
on its own, in any world, holds of it among others. The one thing the works share is told apart by
the whole log: numbers of events are drawn one after another, so no two starts have the same number
(`Interleaving.Follows.eq_of_start`).

Work comes to an end in any order that comes back to it again and again, whatever is polled in
between (`Interleaving.exists_finished`): a poll takes a future to one after it, and there is no end
of that but a result. `Future.completeAll`, which polls in turn, is one of these orders
(`Interleaving.exists_completeAll`).
-/

namespace CitedAnswers

/-- Several pieces of work, each as far as it has been done. -/
structure Interleaving (α : Type) where
  futures : List (Future α)
  world : World
  /-- What happened, in order, each with the index of the work that was polled. -/
  log : List (Nat × Occurrence)

namespace Interleaving

variable {α : Type} (c : Collaborators)

/-- Work of which nothing has been done. -/
def start (ks : List (Work α)) (w : World) : Interleaving α := ⟨ks.map .unstarted, w, []⟩

/-- Polls the work of an index, if there is one. What the poll adds to the trace is tagged with the
index. -/
def poll (s : Interleaving α) (i : Nat) : Interleaving α :=
  match s.futures[i]? with
  | none => s
  | some f =>
    let (g, w) := f.poll c s.world
    ⟨s.futures.set i g, w, s.log ++ (w.trace.drop s.world.trace.length).map (i, ·)⟩

/-- Polls work in the given order. -/
def pollAll (s : Interleaving α) (schedule : List Nat) : Interleaving α := schedule.foldl (poll c) s

/-- What happened, in order. -/
def trace (s : Interleaving α) : List Occurrence := s.log.map Prod.snd

/-- What the work of an index has left behind. -/
def own (s : Interleaving α) (i : Nat) : List Occurrence :=
  (s.log.filter fun x ↦ x.1 == i).map Prod.snd

theorem mem_own {s : Interleaving α} {i : Nat} {o : Occurrence} :
    o ∈ s.own i ↔ (i, o) ∈ s.log := by
  constructor
  · intro h
    obtain ⟨⟨j, o⟩, hx, rfl⟩ := List.mem_map.1 h
    obtain ⟨hx, hj⟩ := List.mem_filter.1 hx
    rwa [← eq_of_beq hj]
  · intro h
    exact List.mem_map.2 ⟨_, List.mem_filter.2 ⟨h, beq_self_eq_true i⟩, rfl⟩

/-- **What a poll does**: some of the work of that index, if there is any. -/
theorem poll_cases (s : Interleaving α) (i : Nat) :
    s.poll c i = s ∨ ∃ f g t, s.futures[i]? = some f ∧ f.remaining.Executes t g.remaining ∧
      s.world.Admits c t ∧
      s.poll c i = ⟨s.futures.set i g, s.world.afterAll t, s.log ++ t.map (i, ·)⟩ := by
  unfold poll
  split
  · exact .inl rfl
  · rename_i f hf
    obtain ⟨t, hk, ht, hw⟩ := Future.leads_poll (c := c) f s.world
    generalize f.poll c s.world = y at hk hw
    obtain ⟨g, w⟩ := y
    obtain rfl : w = s.world.afterAll t := hw
    have hdrop : (s.world.afterAll t).trace.drop s.world.trace.length = t := by
      rw [World.trace_afterAll, List.drop_left]
    exact .inr ⟨f, g, t, hf, hk, ht, congrArg (fun u : List Occurrence ↦
      Interleaving.mk (s.futures.set i g) (s.world.afterAll t) (s.log ++ u.map (i, ·))) hdrop⟩

section

variable (s : Interleaving α) (fs : List (Future α)) (w : World) (t : List Occurrence) (i : Nat)

@[simp]
theorem trace_append :
    trace ⟨fs, w, s.log ++ t.map (i, ·)⟩ = s.trace ++ t := by
  simp [trace, Function.comp_def]

@[simp]
theorem own_append_self : own ⟨fs, w, s.log ++ t.map (i, ·)⟩ i = s.own i ++ t := by
  simp [own, List.filter_map, Function.comp_def]

theorem own_append_of_ne {i j : Nat} (h : i ≠ j) :
    own ⟨fs, w, s.log ++ t.map (i, ·)⟩ j = s.own j := by
  simp [own, List.filter_map, Function.comp_def, h]

end

/-! ### What any order keeps -/

/-- **What holds in any order of polls** of work that was begun in a world. -/
structure Follows (ks : List (Work α)) (w : World) (s : Interleaving α) : Prop where
  length : s.futures.length = ks.length
  world : s.world = w.afterAll s.trace
  /-- The world allows each occurrence when it happens. -/
  admits : w.Admits c s.trace
  /-- What work has left behind is an execution of it. -/
  executes : ∀ (i : Nat) (k : Work α) (f : Future α), ks[i]? = some k → s.futures[i]? = some f →
    k.Executes (s.own i) f.remaining
  /-- Nothing happens but by work that is there. -/
  lt_length : ∀ x ∈ s.log, x.1 < ks.length

variable {c} {ks : List (Work α)} {w : World} {s : Interleaving α}

theorem follows_start (ks : List (Work α)) (w : World) : Follows c ks w (start ks w) where
  length := List.length_map ..
  world := rfl
  admits := trivial
  executes i k f hk hf := by
    rw [start, List.getElem?_map, hk] at hf
    cases hf
    exact .nil k
  lt_length _ h := nomatch h

/-- **One poll** of any of the work. -/
theorem Follows.poll (h : Follows c ks w s) (i : Nat) : Follows c ks w (s.poll c i) := by
  rcases poll_cases c s i with hs | ⟨f, g, t, hf, hk, ht, hs⟩
  · rwa [hs]
  · have hi : i < ks.length := h.length ▸ (List.getElem?_eq_some_iff.1 hf).1
    rw [hs]
    constructor
    · exact (List.length_set ..).trans h.length
    · rw [trace_append, World.afterAll_append, ← h.world]
    · rw [trace_append]
      exact h.admits.append (h.world ▸ ht)
    · intro j k f' hj hf'
      -- The work polled has done the more of it; of any other, neither future nor share changes.
      by_cases hij : i = j
      · subst hij
        rw [List.getElem?_set_self (h.length ▸ hi)] at hf'
        cases hf'
        rw [own_append_self]
        exact (h.executes i k f hj hf).trans hk
      · rw [List.getElem?_set_ne hij] at hf'
        rw [own_append_of_ne _ _ _ _ hij]
        exact h.executes j k f' hj hf'
    · intro x hx
      rcases List.mem_append.1 hx with hx | hx
      · exact h.lt_length x hx
      · obtain ⟨_, -, rfl⟩ := List.mem_map.1 hx
        exact hi

/-- **Any order of polls.** -/
theorem Follows.pollAll (h : Follows c ks w s) (schedule : List Nat) :
    Follows c ks w (s.pollAll c schedule) := by
  induction schedule generalizing s with
  | nil => exact h
  | cons i schedule ih => exact ih (h.poll i)

theorem Follows.exists_future (h : Follows c ks w s) {i : Nat} {k : Work α} (hk : ks[i]? = some k) :
    ∃ f, s.futures[i]? = some f :=
  ⟨_, List.getElem?_eq_getElem (h.length ▸ (List.getElem?_eq_some_iff.1 hk).1)⟩

/-- What work has left behind can go on to a result, in some world or other. -/
theorem Follows.exists_yields (h : Follows c ks w s) {i : Nat} {k : Work α} (hk : ks[i]? = some k) :
    ∃ t a, k.Yields (s.own i ++ t) a := by
  obtain ⟨f, hf⟩ := h.exists_future hk
  obtain ⟨t, a, ht⟩ := f.remaining.exists_yields
  exact ⟨t, a, (h.executes i k f hk hf).trans ht⟩

theorem Follows.yields_of_finished (h : Follows c ks w s) {i : Nat} {k : Work α} {a : α}
    (hk : ks[i]? = some k) (hf : s.futures[i]? = some (.finished a)) : k.Yields (s.own i) a :=
  h.executes i k _ hk hf

end Interleaving

/-! ### Numbers of events -/

/-- The number of a start. -/
def Occurrence.startId? : Occurrence → Option Nat
  | told ⟨.start, _, _, id⟩ => some id
  | _ => none

/-- **Numbers are drawn one after another.** -/
theorem World.Admits.filterMap_startId? {c : Collaborators} {w : World} {t : List Occurrence}
    (h : w.Admits c t) :
    t.filterMap Occurrence.startId? =
      List.range' w.drawn (t.filterMap Occurrence.startId?).length := by
  induction t generalizing w with
  | nil => rfl
  | cons o t ih =>
    have ht := ih h.2
    rcases o with _ | _ | _ | ⟨_ | _, p, x, id⟩ | _ | _
    case told.start =>
      obtain rfl : id = w.drawn := h.1
      exact congrArg (w.drawn :: ·) ht
    all_goals exact ht

namespace Interleaving

variable {α : Type} {c : Collaborators} {ks : List (Work α)} {w : World} {s : Interleaving α}

/-- **No two starts have the same number.** -/
theorem Follows.eq_of_startId? (h : Follows c ks w s) {x y : Nat × Occurrence} (hx : x ∈ s.log)
    (hy : y ∈ s.log) {id : Nat} (hxid : x.2.startId? = some id) (hyid : y.2.startId? = some id) :
    x = y := by
  -- Numbers drawn are nowhere repeated along the log, so neither is an entry that draws one.
  have hnodup : (s.log.filterMap fun x ↦ x.2.startId?).Nodup := by
    have heq := h.admits.filterMap_startId?
    rw [trace, List.filterMap_map] at heq
    exact heq ▸ List.nodup_range'
  let Both (x y : Nat × Occurrence) : Prop := x.2.startId? = some id ∧ y.2.startId? = some id
  have hpair : s.log.Pairwise fun x y ↦ ¬Both x y :=
    (List.pairwise_filterMap.1 hnodup).imp fun h hb ↦ h _ hb.1 _ hb.2 rfl
  have : Std.Symm fun x y ↦ ¬Both x y := ⟨fun _ _ h hb ↦ h hb.symm⟩
  by_contra hne
  exact hpair.forall hx hy hne ⟨hxid, hyid⟩

/-! ### Polling in turn -/

theorem pollAll_append (s : Interleaving α) (is is' : List Nat) :
    s.pollAll c (is ++ is') = (s.pollAll c is).pollAll c is' :=
  List.foldl_append

/-- A round polls each of the work once. The futures before those still to be polled are `done`. -/
theorem exists_round (done fs : List (Future α)) (w : World) (log : List (Nat × Occurrence)) :
    ∃ log', pollAll c ⟨done ++ fs, w, log⟩ (List.range' done.length fs.length) =
      ⟨done ++ (Future.round c fs w).1, (Future.round c fs w).2, log'⟩ := by
  induction fs generalizing done w log with
  | nil => exact ⟨log, rfl⟩
  | cons f fs ih =>
    have hpoll : poll c ⟨done ++ f :: fs, w, log⟩ done.length =
        ⟨done ++ [(f.poll c w).1] ++ fs, (f.poll c w).2,
          log ++ ((f.poll c w).2.trace.drop w.trace.length).map (done.length, ·)⟩ := by
      simp [poll]
    obtain ⟨log', h⟩ := ih (done ++ [(f.poll c w).1]) (f.poll c w).2
      (log ++ ((f.poll c w).2.trace.drop w.trace.length).map (done.length, ·))
    refine ⟨log', ?_⟩
    rw [List.length_append, List.append_assoc _ _ (Future.round ..).1] at h
    rw [List.length_cons, List.range'_succ, pollAll, List.foldl_cons, hpoll]
    exact h

/-- **Polling in turn until all have finished** is polling in some order, at the end of which all
have finished. -/
theorem exists_completeAll (fs : List (Future α)) (w : World) (log : List (Nat × Occurrence)) :
    ∃ schedule gs log', pollAll c ⟨fs, w, log⟩ schedule =
        ⟨gs, (Future.completeAll c fs w).2, log'⟩ ∧
      gs.all Future.isFinished ∧ gs.filterMap Future.value? = (Future.completeAll c fs w).1 := by
  induction fs using Future.wellFounded_roundAfter.induction generalizing w log with
  | _ fs ih =>
    rw [Future.completeAll]
    split
    · rename_i h
      exact ⟨[], fs, log, rfl, h, rfl⟩
    · rename_i h
      obtain ⟨log₁, hround⟩ := exists_round (c := c) [] fs w log
      obtain ⟨schedule, gs, log', hs, hall, hvalues⟩ :=
        ih _ (Future.roundAfter_round c w h) (Future.round c fs w).2 log₁
      refine ⟨List.range' 0 fs.length ++ schedule, gs, log', ?_, hall, hvalues⟩
      rw [pollAll_append, ← hs]
      exact congrArg (pollAll c · schedule) hround

/-! ### Orders that come back to some work -/

variable {i : Nat} {f : Future α}

theorem futures_poll_self (hf : s.futures[i]? = some f) :
    (s.poll c i).futures[i]? = some (f.poll c s.world).1 := by
  have hi : i < s.futures.length := (List.getElem?_eq_some_iff.1 hf).1
  rw [poll, hf]
  exact List.getElem?_set_self hi

theorem futures_poll_of_ne {j : Nat} (h : j ≠ i) : (s.poll c j).futures[i]? = s.futures[i]? := by
  unfold poll
  split
  · rfl
  · exact List.getElem?_set_ne h

/-- What is done in an order without end, poll by poll, comes to a result of the work of an index if
the order comes back to it again and again. -/
theorem exists_finished_of_succ {st : Nat → Interleaving α} {order : Nat → Nat}
    (hst : ∀ n, st (n + 1) = (st n).poll c (order n)) (hfair : ∀ n, ∃ m ≥ n, order m = i) (n : Nat)
    (hf : (st n).futures[i]? = some f) : ∃ m a, (st m).futures[i]? = some (.finished a) := by
  induction f using Future.wellFounded_after.induction generalizing n with
  | _ f ih =>
    -- A poll takes the future to one after it, of which the claim is known.
    have hpoll (n : Nat) (hn : order n = i) (hf : (st n).futures[i]? = some f) :
        ∃ m a, (st m).futures[i]? = some (.finished a) := by
      cases hvalue : f.value? with
      | some a =>
        cases f <;> cases hvalue
        exact ⟨n, a, hf⟩
      | none =>
        refine ih _ (Future.after_poll hvalue c (st n).world) (n + 1) ?_
        rw [hst, hn]
        exact futures_poll_self hf
    -- Until it is polled next, it stays as it is.
    obtain ⟨m, hm, horder⟩ := hfair n
    obtain ⟨d, rfl⟩ := Nat.exists_eq_add_of_le hm
    clear hm
    induction d generalizing n with
    | zero => exact hpoll n horder hf
    | succ d ihd =>
      by_cases hn : order n = i
      · exact hpoll n hn hf
      · refine ihd (n + 1) ?_ (by rwa [Nat.add_right_comm])
        rw [hst, futures_poll_of_ne hn]
        exact hf

/-- **Work that is polled again and again finishes**, whatever is polled in between. -/
theorem exists_finished (hf : s.futures[i]? = some f) {order : Nat → Nat}
    (hfair : ∀ n, ∃ m ≥ n, order m = i) :
    ∃ n a, (s.pollAll c ((List.range n).map order)).futures[i]? = some (.finished a) := by
  refine exists_finished_of_succ (c := c) (fun n ↦ ?_) hfair 0 hf
  rw [List.range_succ, List.map_append, pollAll_append]
  rfl

end Interleaving

end CitedAnswers
