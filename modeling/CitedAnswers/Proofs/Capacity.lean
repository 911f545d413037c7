import CitedAnswers.Proofs.Sweep

/-!
# What a chunk measures

A chunk measures no more than the capacity, but for two exceptions (`Window.Bounded`): a single
character may measure more by itself, and then the chunk may take in one further character that does
not make it larger. `Window.bounded_stopOf` says so of the chunk at any cursor. Of the measure
nothing is needed but that no text measures more than it has bytes; in particular it need not grow
with the text, so nothing is concluded from one beginning of the text to another.

That leaves little to go on, and three facts have to meet:

* Whatever the search comes to was itself measured (`Window.isEnd_of_search`), and so was whatever
  the chunk is extended to (`Window.extend_cases`). So a chunk can only be too large if the search
  has fallen back on the first section of all.
* The first section of the level chosen fits, unless nothing does and the sections are characters
  (`Plan.of_cases`).
* In that case no section may begin beyond the end of the first character, so at most two sections
  are gathered (`Window.chars_le_two_of_mem_within`).
-/

namespace CitedAnswers.Chunking

/-! ### The first section of a level -/

theorem segmentLength_eq (σ : Unicode.Segmenter) (cs : List Char) :
    segmentLength σ cs = (segmentLengths σ cs).head?.getD 0 := by
  cases cs with
  | nil => rw [segmentLengths]; rfl
  | cons c cs => rw [segmentLengths]; rfl

namespace Level

theorem firstLength_eq (r : Rest) (l : Level) :
    l.firstLength r = (l.sections r).head?.getD 0 := by
  cases l with
  | lines rank => rfl
  | sentences => exact segmentLength_eq ..
  | words => exact segmentLength_eq ..
  | clusters => exact segmentLength_eq ..
  | characters =>
    rcases r with ⟨_ | ⟨c, cs⟩, marks⟩
    · rfl
    · exact Nat.min_eq_left (Nat.succ_le_succ (Nat.zero_le _))

/-- A rest that has a character has a first section. -/
theorem exists_sections_eq_cons {r : Rest} (hr : r.Marked) (hpos : 0 < r.chars.length)
    (l : Level) : ∃ ns, l.sections r = l.firstLength r :: ns := by
  cases h : l.sections r with
  | nil =>
    have hsum := sum_sections (l := l) hr
    rw [h, List.sum_nil] at hsum
    omega
  | cons n ns => exact ⟨ns, by rw [firstLength_eq, h]; rfl⟩

end Level

/-! ### The level chosen -/

namespace Candidate

variable {size : List Char → Nat} {capacity : Nat} {cs : List Char} {a : Candidate}
  {as : List Candidate} {best : Option Level}

/-- The first section of a level fits, as far as climbing is concerned: it has no more bytes than
the capacity, or does not measure more. -/
def Fits (size : List Char → Nat) (capacity : Nat) (cs : List Char) (a : Candidate) : Prop :=
  a.bytes ≤ capacity ∨ size (cs.take a.length) ≤ capacity

theorem mem_of_mem_thin (h : a ∈ thin as) : a ∈ as := by
  fun_induction thin as with
  | case1 b c cs _ ih => exact List.mem_cons_of_mem _ (ih h)
  | case2 b c cs _ ih =>
    rcases List.mem_cons.1 h with rfl | h
    · exact List.mem_cons_self ..
    · exact List.mem_cons_of_mem _ (ih h)
  | case3 => exact h

/-- The lowest level that is left has no longer a first section than the lowest of all. -/
theorem exists_thin_cons (a : Candidate) (as : List Candidate) :
    ∃ b bs, thin (a :: as) = b :: bs ∧ b.bytes ≤ a.bytes := by
  induction as generalizing a with
  | nil => exact ⟨a, [], rfl, Nat.le_refl _⟩
  | cons b bs ih =>
    rw [thin]
    split
    · obtain ⟨b', bs', h, hle⟩ := ih b
      exact ⟨b', bs', h, by omega⟩
    · exact ⟨a, _, rfl, Nat.le_refl _⟩

theorem climb_cons_of_fits (h : a.Fits size capacity cs) :
    climb size capacity cs best (a :: as) = climb size capacity cs (some a.level) as :=
  if_neg fun hlarge ↦ h.elim (Nat.not_le_of_lt hlarge.1) (Nat.not_le_of_lt hlarge.2)

theorem climb_cons_of_not_fits (h : ¬a.Fits size capacity cs) :
    climb size capacity cs best (a :: as) = (best, some a.bytes) := by
  rw [Fits, not_or, Nat.not_le, Nat.not_le] at h
  exact if_pos h

/-- Climbing comes to the level it begins at or to one whose first section fits. -/
theorem climb_fst_cases : (climb size capacity cs best as).1 = best ∨
    ∃ a ∈ as, a.Fits size capacity cs ∧ (climb size capacity cs best as).1 = some a.level := by
  induction as generalizing best with
  | nil => exact .inl rfl
  | cons a as ih =>
    by_cases ha : a.Fits size capacity cs
    · rw [climb_cons_of_fits ha]
      right
      rcases @ih (some a.level) with h | ⟨b, hb, hfits, h⟩
      · exact ⟨a, List.mem_cons_self .., ha, h⟩
      · exact ⟨b, List.mem_cons_of_mem _ hb, hfits, h⟩
    · rw [climb_cons_of_not_fits ha]
      exact .inl rfl

end Candidate

open Candidate in
/-- A level that climbing from none has come to has a first section that fits. -/
theorem Candidate.fits_of_climb {size : List Char → Nat} {capacity : Nat} {r : Rest} {l : Level}
    {ls : List Level}
    (h : (climb size capacity r.chars none (thin (ls.map (Candidate.of r)))).1 = some l) :
    (Candidate.of r l).Fits size capacity r.chars := by
  rcases climb_fst_cases with hnone | ⟨a, ha, hfits, hsome⟩
  · cases hnone.symm.trans h
  · obtain ⟨l', -, rfl⟩ := List.mem_map.1 (mem_of_mem_thin ha)
    cases hsome.symm.trans h
    exact hfits

theorem exists_tighter_some_le (a : Option Nat) (b : Nat) : ∃ m, tighter a (some b) = some m ∧
    m ≤ b := by
  cases a with
  | none => exact ⟨b, rfl, Nat.le_refl b⟩
  | some a => exact ⟨min a b, rfl, Nat.min_le_right a b⟩

/-- **The level chosen** is one whose first section fits; if there is none, the sections are
characters, and none may begin beyond the first character. -/
theorem Plan.of_cases (size : List Char → Nat) (capacity : Nat) (r : Rest) :
    (Candidate.of r (Plan.of size capacity r).level).Fits size capacity r.chars ∨
      (Plan.of size capacity r).level = .characters ∧
        ∃ limit, (Plan.of size capacity r).limit = some limit ∧
          limit ≤ Unicode.byteCount (r.chars.take 1) := by
  rw [Plan.of]
  split
  · rename_i l limit h
    exact .inl (Candidate.fits_of_climb (congrArg Prod.fst h))
  · rename_i limit _
    dsimp only
    cases h : (Candidate.climb size capacity r.chars none
        (Candidate.thin (Level.universal.map (Candidate.of r)))).1 with
    | some l => exact .inl (Candidate.fits_of_climb h)
    | none =>
      obtain ⟨b, bs, hthin, hle⟩ := Candidate.exists_thin_cons (Candidate.of r .characters)
        ([Level.clusters, .words, .sentences].map (Candidate.of r))
      have huniversal : Candidate.thin (Level.universal.map (Candidate.of r)) = b :: bs := hthin
      have hfirst : (Candidate.of r .characters).bytes = Unicode.byteCount (r.chars.take 1) := by
        show Unicode.byteCount (r.chars.take (min 1 r.chars.length)) = _
        rw [← List.take_take, List.take_length]
      rw [huniversal] at h ⊢
      -- If the lowest level did fit, climbing would have come to it at least.
      have hb : ¬b.Fits size capacity r.chars := by
        intro hb
        rw [Candidate.climb_cons_of_fits hb] at h
        rcases Candidate.climb_fst_cases with hsome | ⟨a, -, -, hsome⟩
        · cases hsome.symm.trans h
        · cases hsome.symm.trans h
      rw [Candidate.climb_cons_of_not_fits hb]
      obtain ⟨m, hm, hmle⟩ := exists_tighter_some_le limit b.bytes
      exact .inr ⟨rfl, m, hm, by omega⟩

namespace Window

variable (w : Window)

/-! ### The sections gathered -/

/-- The first section gathered is that of the level chosen. -/
theorem chars_of_getElem?_gathered {r : Rest} (hr : r.Marked) (hpos : 0 < r.chars.length)
    {longest : Option Nat} {q : Mark} (hq : (w.gathered r longest).sections[0]? = some q) :
    q.chars = (Plan.of w.size w.capacity r).level.firstLength r := by
  obtain ⟨ns, hns⟩ := Level.exists_sections_eq_cons hr hpos (Plan.of w.size w.capacity r).level
  obtain ⟨hlt, rfl⟩ := List.getElem?_eq_some_iff.1 hq
  have hfirst := List.prefix_iff_getElem?.1 (w.gathered_isPrefix r longest) 0 hlt
  -- The first section begins at the cursor, so the limit does not leave it out.
  rw [hns, ends, within, if_pos (by simp), List.getElem?_cons_zero] at hfirst
  rw [← Option.some.inj hfirst, Nat.zero_add]

theorem within_eq_nil {limit start : Nat} (h : limit < start) (qs : List Mark) :
    within (some limit) start qs = [] := by
  cases qs with
  | nil => rfl
  | cons q qs => exact if_neg (by simpa using h)

/-- If no section may begin beyond the end of the first character, there are two characters at
most. -/
theorem chars_le_two_of_mem_within {cs : List Char} {limit : Nat}
    (hlimit : limit ≤ Unicode.byteCount (cs.take 1)) {q : Mark}
    (hq : q ∈ within (some limit) 0 (ends ⟨0, 0⟩ cs (cs.map fun _ ↦ 1))) : q.chars ≤ 2 := by
  rcases cs with _ | ⟨c, _ | ⟨d, cs⟩⟩
  · cases hq
  · have hle := (chars_of_mem_ends (by simp) (mem_of_mem_within hq)).2
    simp at hle
    omega
  · have hd : limit < Unicode.byteCount [c] + Unicode.byteCount [d] :=
      Nat.lt_of_le_of_lt hlimit (Nat.lt_add_of_pos_right (Nat.add_pos_left d.utf8Size_pos _))
    simp only [List.map_cons, ends, List.take_succ_cons, List.take_zero, List.drop_succ_cons,
      List.drop_zero, within, Nat.zero_add] at hq
    rw [within_eq_nil hd] at hq
    split at hq
    · split at hq
      · rcases List.mem_cons.1 hq with rfl | hq
        · exact Nat.le_succ 1
        · obtain rfl := List.mem_singleton.1 hq
          exact Nat.le_refl 2
      · obtain rfl := List.mem_singleton.1 hq
        exact Nat.le_succ 1
    · cases hq

/-! ### The end of the chunk -/

/-- Whatever a chunk is extended to was measured. -/
theorem extend_cases (cs : List Char) (best stop : Nat) (qs : List Mark) :
    w.extend cs best stop qs = stop ∨ w.size (cs.take (w.extend cs best stop qs)) ≤ best := by
  induction qs generalizing stop with
  | nil => exact .inl rfl
  | cons q qs ih =>
    rw [extend]
    split
    case isTrue hq =>
      rcases ih (max stop q.chars) with h | h
      · rcases Nat.le_total q.chars stop with hle | hle
        · exact .inl (h.trans (Nat.max_eq_left hle))
        · right
          rwa [h, Nat.max_eq_right hle]
      · exact .inr h
    case isFalse => exact .inl rfl

theorem size_extend_le {cs : List Char} {sections : List Mark} {f : Found}
    (hf : w.IsEnd cs sections f) (qs : List Mark) :
    w.size (cs.take (w.extend cs f.size f.stop qs)) ≤ f.size := by
  obtain ⟨-, -, -, hmeasured, -⟩ := hf
  rcases w.extend_cases cs f.size f.stop qs with h | h
  · rw [h]
    exact Nat.le_of_eq hmeasured.symm
  · exact h

/-- **What a chunk measures**: no more than the capacity, unless its first character does by
itself. -/
inductive Bounded : List Char → Prop where
  | fits {cs : List Char} (h : w.size cs ≤ w.capacity) : Bounded cs
  | single (c : Char) : Bounded [c]
  /-- A second character was taken in because it does not make the chunk larger. -/
  | pair (c d : Char) (h : w.capacity < w.size [c]) (h' : w.size [c, d] ≤ w.size [c]) :
    Bounded [c, d]

theorem Bounded.take {w : Window} {cs : List Char} {n : Nat} (hpos : 0 < n) (hn : n ≤ cs.length)
    (htwo : n ≤ 2) (hlarge : w.capacity < w.size (cs.take 1))
    (h : w.size (cs.take n) ≤ w.size (cs.take 1)) : w.Bounded (cs.take n) := by
  obtain ⟨c, cs, rfl⟩ := List.exists_cons_of_length_pos (Nat.lt_of_lt_of_le hpos hn)
  obtain rfl | rfl : n = 1 ∨ n = 2 := by omega
  · exact .single c
  · obtain ⟨d, cs, rfl⟩ := List.exists_cons_of_length_pos (Nat.le_of_succ_le_succ hn)
    exact .pair c d hlarge h

/-- What the search falls back on if nothing fits: the first section, which is a single character,
and at most one more is gathered. -/
theorem fallback {r : Rest} (hr : r.Marked) (hpos : 0 < r.chars.length)
    (hsize : ∀ cs, w.size cs ≤ Unicode.byteCount cs) {longest : Option Nat} {f : Found}
    (hf : w.IsEnd r.chars (w.gathered r longest).sections f) (hlarge : w.capacity < f.size) :
    f.stop = 1 ∧ ∀ q ∈ (w.gathered r longest).sections, q.chars ≤ 2 := by
  obtain ⟨q, hq, hstop, hmeasured, hfits⟩ := hf
  rw [hfits.resolve_left (Nat.not_le_of_lt hlarge)] at hq
  have hfirst := w.chars_of_getElem?_gathered hr hpos hq
  rcases Plan.of_cases w.size w.capacity r with hfit | ⟨hlevel, limit, hlimit, hle⟩
  · -- The first section of the level chosen would fit.
    have hle : f.size ≤ w.capacity := by
      rw [hmeasured, hstop, hfirst]
      exact hfit.elim (Nat.le_trans (hsize _)) id
    exact absurd hle (Nat.not_le_of_lt hlarge)
  · rw [hlevel] at hfirst
    refine ⟨hstop.trans (hfirst.trans (Nat.min_eq_left hpos)), fun q hq ↦ ?_⟩
    have hmem := (w.gathered_isPrefix r longest).subset hq
    rw [hlevel, hlimit] at hmem
    exact chars_le_two_of_mem_within hle hmem

/-- **The chunk at a cursor** does not measure more than that. -/
theorem bounded_stopOf {r : Rest} (hr : r.Marked) (hpos : 0 < r.chars.length)
    (hsize : ∀ cs, w.size cs ≤ Unicode.byteCount cs) (longest : Option Nat) :
    w.Bounded (r.chars.take (w.stopOf r.chars (w.gathered r longest))) := by
  obtain ⟨hstop, hlength⟩ := w.stopOf_gathered hr hpos longest
  rcases w.stopOf_cases r.chars (w.gathered r longest) with ⟨f, hf, hextend⟩ | hone
  · have hbest : w.size (r.chars.take (w.stopOf r.chars (w.gathered r longest))) ≤ f.size := by
      rw [hextend]
      exact w.size_extend_le hf _
    rcases Nat.lt_or_ge w.capacity f.size with hlarge | hfits
    · obtain ⟨hone, htwo⟩ := w.fallback hr hpos hsize hf hlarge
      have hle : w.stopOf r.chars (w.gathered r longest) ≤ 2 := by
        rw [hextend]
        exact w.extend_le (by omega) fun q hq ↦ htwo q (List.mem_of_mem_drop hq)
      obtain ⟨-, -, -, hmeasured, -⟩ := hf
      rw [hmeasured, hone] at hlarge hbest
      exact .take hstop hlength hle hlarge hbest
    · exact .fits (Nat.le_trans hbest hfits)
  · obtain ⟨c, cs, hcs⟩ := List.exists_cons_of_length_pos hpos
    rw [hone, hcs]
    exact .single c

end Window

end CitedAnswers.Chunking
