import CitedAnswers.Proofs.Spans
import Mathlib.Algebra.GroupWithZero.Nat

/-!
# The course of the window

Whatever its sizing is and however stretches of text are measured, a window moves over a text from
one end to the other and leaves no gap: every chunk begins after the chunk before it does, no later
than where that one ends, and ends beyond it, and the last chunk ends with the text
(`Window.sweeps_spans`).

Nothing is needed for this of how the window chooses its sections but that they are sections of the
text: the ends it searches are those of non-empty sections that together make up the text
(`Level.sum_sections`), and the search can only come to one of these. So the chunk at the cursor has
a character at least and stays within the text (`Window.stopOf_pos`, `Window.stopOf_le`), and the
cursor moves no further than to its end (`Window.advance_le`).
-/

namespace CitedAnswers.Chunking

/-! ### Sections make up the text -/

theorem segmentLengths_pos {σ : Unicode.Segmenter} {cs : List Char} {n : Nat}
    (h : n ∈ segmentLengths σ cs) : 0 < n := by
  fun_induction segmentLengths σ cs with
  | case1 => cases h
  | case2 c cs more ih =>
    rcases List.mem_cons.1 h with rfl | h
    · exact Nat.succ_pos _
    · exact ih h

theorem sum_segmentLengths (σ : Unicode.Segmenter) (cs : List Char) :
    (segmentLengths σ cs).sum = cs.length := by
  fun_induction segmentLengths σ cs with
  | case1 => rfl
  | case2 c cs more ih =>
    have h : more ≤ cs.length := σ.reach_le _ cs
    rw [List.sum_cons, ih, List.length_drop, List.length_cons]
    omega

theorem LineRun.sections_pos {rank : Nat} {ms : List LineMark} {n : Nat}
    (h : n ∈ sections rank ms) : 0 < n := by
  fun_induction sections rank ms with
  | case1 => cases h
  | case2 m ms more ih =>
    rcases List.mem_cons.1 h with rfl | h
    · exact Nat.succ_pos _
    · exact ih h

theorem LineRun.sum_sections (rank : Nat) (ms : List LineMark) :
    (sections rank ms).sum = ms.length := by
  fun_induction sections rank ms with
  | case1 => rfl
  | case2 m ms more ih =>
    rw [List.sum_cons, ih, List.length_drop, List.length_cons]
    omega

/-- A rest of a text has a mark beside each of its characters. -/
def Rest.Marked (r : Rest) : Prop := r.marks.length = r.chars.length

theorem Rest.marked_ofText (cs : List Char) : (Rest.ofText cs).Marked := LineRun.length_marks cs

/-- It still has after a character and some more are left behind. -/
theorem Rest.Marked.next {c : Char} {cs : List Char} {ms : List LineMark}
    (h : Marked ⟨c :: cs, ms⟩) (more : Nat) : Marked ⟨cs.drop more, (ms.drop 1).drop more⟩ := by
  have hms : ms.length = cs.length + 1 := h
  simp only [Marked, List.length_drop]
  omega

namespace Level

variable {r : Rest} {l : Level}

theorem sections_pos {n : Nat} (h : n ∈ l.sections r) : 0 < n := by
  cases l with
  | lines rank => exact LineRun.sections_pos h
  | sentences => exact segmentLengths_pos h
  | words => exact segmentLengths_pos h
  | clusters => exact segmentLengths_pos h
  | characters =>
    obtain ⟨_, -, rfl⟩ := List.mem_map.1 h
    exact Nat.one_pos

/-- **The sections of every level make up the text.** -/
theorem sum_sections (h : r.Marked) : (l.sections r).sum = r.chars.length := by
  cases l with
  | lines rank => exact (LineRun.sum_sections ..).trans h
  | sentences => exact sum_segmentLengths ..
  | words => exact sum_segmentLengths ..
  | clusters => exact sum_segmentLengths ..
  | characters => rw [sections, List.map_const', List.sum_replicate_nat, Nat.mul_one]

end Level

namespace Window

variable (w : Window) {n : Nat}

/-! ### The end of a chunk -/

theorem chars_of_mem_ends {from_ q : Mark} {cs : List Char} {ns : List Nat}
    (hpos : ∀ n ∈ ns, 0 < n) (h : q ∈ ends from_ cs ns) :
    from_.chars < q.chars ∧ q.chars ≤ from_.chars + ns.sum := by
  induction ns generalizing from_ cs with
  | nil => cases h
  | cons n ns ih =>
    have hn : 0 < n := hpos n (List.mem_cons_self ..)
    rw [List.sum_cons]
    rcases List.mem_cons.1 h with rfl | h
    · exact ⟨Nat.lt_add_of_pos_right hn, by show from_.chars + n ≤ _; omega⟩
    · have := ih (fun m hm ↦ hpos m (List.mem_cons_of_mem _ hm)) h
      dsimp only at this
      omega

theorem mem_of_mem_within {limit : Option Nat} {start : Nat} {q : Mark} {qs : List Mark}
    (h : q ∈ within limit start qs) : q ∈ qs := by
  induction qs generalizing start with
  | nil => exact h
  | cons p qs ih =>
    rw [within] at h
    split at h
    · rcases List.mem_cons.1 h with rfl | h
      · exact List.mem_cons_self ..
      · exact List.mem_cons_of_mem _ (ih h)
    · cases h

theorem through_append (target : Nat) (qs : List Mark) :
    (through target qs).1 ++ (through target qs).2 = qs := by
  induction qs with
  | nil => rfl
  | cons q qs ih =>
    rw [through]
    split
    · rfl
    · exact congrArg (q :: ·) ih

theorem gather_isPrefix (cs : List Char) (low target : Nat) (taken qs : List Mark) :
    (w.gather cs low target taken qs).sections <+: taken ++ qs := by
  fun_induction gather w cs low target taken qs with
  | case1 => exact List.prefix_append ..
  | case2 _ target taken p qs | case3 _ target taken p qs =>
    rw [← through_append target (p :: qs), ← List.append_assoc]
    exact List.prefix_append ..
  | case4 _ target taken p qs more rest taken' last _ c _ ih =>
    rwa [← through_append target (p :: qs), ← List.append_assoc]

/-- **What is gathered** are the first sections of the level chosen, as far as they are within its
limit. -/
theorem gathered_isPrefix (r : Rest) (longest : Option Nat) :
    (w.gathered r longest).sections <+: within (Plan.of w.size w.capacity r).limit 0
      (ends ⟨0, 0⟩ r.chars ((Plan.of w.size w.capacity r).level.sections r)) :=
  w.gather_isPrefix ..

/-- The sections gathered for a chunk end after the cursor and within the text. -/
theorem chars_of_mem_gathered {r : Rest} (hr : r.Marked) {longest : Option Nat} {q : Mark}
    (h : q ∈ (w.gathered r longest).sections) : 0 < q.chars ∧ q.chars ≤ r.chars.length := by
  have hmem := mem_of_mem_within ((w.gathered_isPrefix r longest).subset h)
  have hbounds := chars_of_mem_ends (fun _ ↦ Level.sections_pos) hmem
  rwa [Level.sum_sections hr, Nat.zero_add] at hbounds

/-- What the search may come to: the end of a section, of the first one or of one that fits. -/
def IsEnd (cs : List Char) (sections : List Mark) (f : Found) : Prop :=
  ∃ q, sections[f.index]? = some q ∧ f.stop = q.chars ∧ f.size = w.size (cs.take f.stop) ∧
    (f.size ≤ w.capacity ∨ f.index = 0)

/-- **The search comes to nothing else.** -/
theorem isEnd_of_search {cs : List Char} {sections : List Mark} {low high : Nat}
    {found : Option Found} {exact : Bool} (hfound : ∀ f ∈ found, w.IsEnd cs sections f) {f : Found}
    (h : f ∈ w.search cs sections low high found exact) : w.IsEnd cs sections f := by
  -- A section that is too short, that just fits or that is too long: only the last has to be the
  -- first of all to be taken.
  fun_induction search w cs sections low high found exact with
  | case1 => exact hfound f h
  | case2 low high found exact _ mid q hq c here hc further ih =>
    refine ih (fun f hf ↦ ?_) h
    split at hf
    · cases hf
      exact ⟨q, hq, rfl, rfl, .inl (Nat.le_of_lt hc)⟩
    · exact hfound f hf
  | case3 low high found exact _ mid q hq c here _ hc nearer ih =>
    refine ih (fun f hf ↦ ?_) h
    split at hf
    · cases hf
      exact ⟨q, hq, rfl, rfl, .inl (Nat.le_of_eq hc)⟩
    · exact hfound f hf
  | case4 low high found exact _ mid q hq c here _ _ ih =>
    refine ih (fun f hf ↦ ?_) h
    split at hf
    · rename_i h0
      cases hf
      exact ⟨q, hq, rfl, rfl, .inr h0.1⟩
    · exact hfound f hf
  | case5 => exact hfound f h

/-- The text of a chunk goes on from what the search has come to, or is one character if that is
nothing. -/
theorem stopOf_cases (cs : List Char) (g : Gathered) :
    (∃ f, w.IsEnd cs g.sections f ∧
      w.stopOf cs g = w.extend cs f.size f.stop (g.sections.drop (f.index + 1))) ∨
      w.stopOf cs g = 1 := by
  rw [stopOf]
  split
  · rename_i f hf
    exact .inl ⟨f, w.isEnd_of_search (by simp) hf, rfl⟩
  · exact .inr rfl

theorem le_extend (cs : List Char) (best stop : Nat) (qs : List Mark) :
    stop ≤ w.extend cs best stop qs := by
  induction qs generalizing stop with
  | nil => exact Nat.le_refl _
  | cons q qs ih =>
    rw [extend]
    split
    · exact Nat.le_trans (Nat.le_max_left ..) (ih _)
    · exact Nat.le_refl _

theorem extend_le {cs : List Char} {best stop : Nat} {qs : List Mark} (hs : stop ≤ n)
    (h : ∀ q ∈ qs, q.chars ≤ n) : w.extend cs best stop qs ≤ n := by
  induction qs generalizing stop with
  | nil => exact hs
  | cons q qs ih =>
    have hq := h q (List.mem_cons_self ..)
    rw [extend]
    split
    · exact ih (Nat.max_le.2 ⟨hs, hq⟩) fun p hp ↦ h p (List.mem_cons_of_mem _ hp)
    · exact hs

section

variable {cs : List Char} {g : Gathered}

theorem stopOf_pos (h : ∀ q ∈ g.sections, 0 < q.chars) : 0 < w.stopOf cs g := by
  rcases w.stopOf_cases cs g with ⟨f, ⟨q, hq, hf, -⟩, hstop⟩ | hstop
  · have hpos : 0 < f.stop := hf ▸ h q (List.mem_of_getElem? hq)
    rw [hstop]
    exact Nat.lt_of_lt_of_le hpos (w.le_extend ..)
  · omega

theorem stopOf_le (hn : 0 < n) (h : ∀ q ∈ g.sections, q.chars ≤ n) : w.stopOf cs g ≤ n := by
  rcases w.stopOf_cases cs g with ⟨f, ⟨q, hq, hf, -⟩, hstop⟩ | hstop
  · have hle : f.stop ≤ n := hf ▸ h q (List.mem_of_getElem? hq)
    rw [hstop]
    exact w.extend_le hle fun q hq ↦ h q (List.mem_of_mem_drop hq)
  · omega

end

/-! ### The next place of the cursor -/

theorem retreat_le (cs : List Char) (sections : List Mark) (stop low high start : Nat) :
    w.retreat cs sections stop low high start ≤ start := by
  fun_induction retreat w cs sections stop low high start with
  | case1 low high start _ mid o k start' _ ih | case2 low high start _ mid o k start' _ ih =>
    refine Nat.le_trans ih ?_
    show (if k ≤ w.overlap ∧ o < start ∧ 0 < o then o else start) ≤ start
    split <;> omega
  | case3 => exact Nat.le_refl _

theorem advance_le (cs : List Char) (sections : List Mark) (stop : Nat) :
    w.advance cs sections stop ≤ stop := by
  rw [advance]
  split
  · exact Nat.le_refl _
  · exact w.retreat_le ..

end Window

/-! ### The whole course -/

/-- Spans sweep over a text of `n` characters, of which earlier ones reach up to `reached`, from
`cursor` on: each begins after the one before it does and no later than where that one ends, and
ends beyond it, and the last one ends with the text. -/
def Sweeps (n cursor reached : Nat) : List Span → Prop
  | [] => reached = n
  | s :: ss =>
    cursor ≤ s.start ∧ s.start ≤ reached ∧ reached < s.stop ∧ s.stop ≤ n ∧
      Sweeps n (s.start + 1) s.stop ss

theorem Sweeps.of_le {n cursor cursor' reached : Nat} {ss : List Span}
    (h : Sweeps n cursor' reached ss) (hc : cursor ≤ cursor') : Sweeps n cursor reached ss := by
  cases ss with
  | nil => exact h
  | cons s ss => exact ⟨Nat.le_trans hc h.1, h.2⟩

/-- Spans that sweep over a text cover it. -/
theorem Sweeps.covers {n cursor reached : Nat} {ss : List Span}
    (h : Sweeps n cursor reached ss) : Covers n reached ss := by
  induction ss generalizing cursor reached with
  | nil => exact h
  | cons s ss ih =>
    obtain ⟨-, hs, hstop, hn, hmore⟩ := h
    refine ⟨hs, Nat.lt_of_le_of_lt hs hstop, hn, ?_⟩
    rw [Nat.max_eq_right (Nat.le_of_lt hstop)]
    exact ih hmore

namespace Window

variable (w : Window)

/-- The chunk at a cursor has a character at least and stays within the text. -/
theorem stopOf_gathered {r : Rest} (hr : r.Marked) (hpos : 0 < r.chars.length)
    (longest : Option Nat) :
    0 < w.stopOf r.chars (w.gathered r longest) ∧
      w.stopOf r.chars (w.gathered r longest) ≤ r.chars.length :=
  ⟨w.stopOf_pos fun _ hq ↦ (w.chars_of_mem_gathered hr hq).1,
    w.stopOf_le hpos fun _ hq ↦ (w.chars_of_mem_gathered hr hq).2⟩

/-- What holds of a cursor holds of the next one: it has not passed the furthest end so far, and the
rest of the text begins there. -/
theorem cursor_next {n cursor reached stop more : Nat} {c : Char} {cs : List Char}
    {ms : List LineMark} (hr : Rest.Marked ⟨c :: cs, ms⟩) (hl : cursor + (c :: cs).length = n)
    (hn : reached ≤ n) (hpos : 0 < stop) (hle : stop ≤ (c :: cs).length) (hmore : more ≤ stop - 1) :
    Rest.Marked ⟨cs.drop more, (ms.drop 1).drop more⟩ ∧
      cursor + more + 1 + (cs.drop more).length = n ∧
      cursor + more + 1 ≤ max reached (cursor + stop) ∧ max reached (cursor + stop) ≤ n := by
  rw [List.length_cons] at hl hle
  refine ⟨hr.next more, ?_, ?_, ?_⟩
  · rw [List.length_drop]
    omega
  · omega
  · omega

/-- The course of the window from a cursor on that has not passed the furthest end so far. -/
theorem sweeps_spansFrom {n cursor reached : Nat} {longest : Option Nat} {r : Rest} (hr : r.Marked)
    (hl : cursor + r.chars.length = n) (hc : cursor ≤ reached) (hn : reached ≤ n) :
    Sweeps n cursor reached (w.spansFrom cursor reached longest r) := by
  fun_induction spansFrom w cursor reached longest r with
  | case1 cursor reached longest marks => exact Nat.le_antisymm hn (hl ▸ hc)
  | case2 cursor reached longest c cs ms r g stop bytes more further h ih =>
    -- The chunk reaches further than those before it, and is kept.
    obtain ⟨hpos, hle⟩ := w.stopOf_gathered hr (Nat.succ_pos _) longest
    have hmore : more ≤ stop - 1 := Nat.sub_le_sub_right (w.advance_le ..) 1
    obtain ⟨hr', hl', hc', hn'⟩ := cursor_next hr hl hn hpos hle hmore
    have hfurther : Sweeps n (cursor + more + 1) (max reached (cursor + stop)) further :=
      ih hr' hl' hc' hn'
    rw [Nat.max_eq_right (Nat.le_of_lt h)] at hfurther hn'
    have hcursor : cursor + 1 ≤ cursor + more + 1 := Nat.succ_le_succ (Nat.le_add_right ..)
    exact ⟨Nat.le_refl _, hc, h, hn', hfurther.of_le hcursor⟩
  | case3 cursor reached longest c cs ms r g stop bytes more further h ih =>
    -- It does not reach further and is left out, so only the cursor has moved.
    obtain ⟨hpos, hle⟩ := w.stopOf_gathered hr (Nat.succ_pos _) longest
    have hmore : more ≤ stop - 1 := Nat.sub_le_sub_right (w.advance_le ..) 1
    obtain ⟨hr', hl', hc', hn'⟩ := cursor_next hr hl hn hpos hle hmore
    have hfurther : Sweeps n (cursor + more + 1) (max reached (cursor + stop)) further :=
      ih hr' hl' hc' hn'
    rw [Nat.max_eq_left (Nat.le_of_not_lt h)] at hfurther
    exact hfurther.of_le (Nat.le_add_right cursor (more + 1))

/-- **The course of the window** over a text. -/
theorem sweeps_spans (cs : List Char) : Sweeps cs.length 0 0 (w.spans cs) :=
  w.sweeps_spansFrom (Rest.marked_ofText cs) (Nat.zero_add _) (Nat.le_refl 0) (Nat.zero_le _)

end Window

end CitedAnswers.Chunking
