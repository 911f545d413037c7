import CitedAnswers.Proofs.Bounds

/-!
# Text that fits is never cut

If every beginning of a text fits the capacity, the window takes the whole text for one chunk
(`Window.spans_eq_singleton`). Counted in characters that is so of every text with no more
characters than the capacity, however its lines, sentences and words are made.

No level is held to be too large then, so the plan sets no limit and all its sections stay in sight.
Three loops follow, and each has its own reason to reach the end of the text:

* gathering only stops for want of sections, since what was gathered is never too large and a target
  that is missed means that there is nothing left to gather (`Window.sections_gathered`);
* the search comes to the last section or to one that has just the capacity (`Window.Seeks`);
* from there the chunk is extended over all that is left, as none of it is larger than the capacity
  (`Window.le_extend_of_mem`).
-/

namespace CitedAnswers.Chunking

/-! ### A plan without a limit -/

section

variable {size : List Char → Nat} {capacity : Nat}

theorem Candidate.climb_snd_eq_none {cs : List Char} {best : Option Level} {as : List Candidate}
    (h : ∀ a ∈ as, a.Fits size capacity cs) : (climb size capacity cs best as).2 = none := by
  induction as generalizing best with
  | nil => rfl
  | cons a as ih =>
    rw [climb_cons_of_fits (h a (List.mem_cons_self ..))]
    exact ih fun b hb ↦ h b (List.mem_cons_of_mem _ hb)

theorem Plan.limit_eq_none {r : Rest} (h : ∀ n, size (r.chars.take n) ≤ capacity) :
    (Plan.of size capacity r).limit = none := by
  have hclimb (ls : List Level) : (Candidate.climb size capacity r.chars none
      (Candidate.thin (ls.map (Candidate.of r)))).2 = none :=
    Candidate.climb_snd_eq_none fun a _ ↦ .inr (h a.length)
  rw [Plan.of]
  split
  · rename_i l limit heq
    exact (congrArg Prod.snd heq).symm.trans (hclimb _)
  · rename_i limit heq
    have hlimit : limit = none := (congrArg Prod.snd heq).symm.trans (hclimb _)
    show tighter limit _ = none
    rw [hlimit, hclimb]
    rfl

end

namespace Window

variable (w : Window)

theorem within_none (start : Nat) (qs : List Mark) : within none start qs = qs := by
  induction qs generalizing start with
  | nil => rfl
  | cons q qs ih =>
    show q :: within none q.bytes qs = q :: qs
    rw [ih]

/-! ### All sections are gathered -/

/-- What is split off ends beyond the target, unless nothing is left. -/
theorem lt_bytes_of_through {target : Nat} {q : Mark} {qs : List Mark}
    (h : (through target (q :: qs)).2 ≠ []) (d : Mark) :
    target < ((through target (q :: qs)).1.getLastD d).bytes := by
  induction qs generalizing q d with
  | nil =>
    rw [through] at h
    split at h
    · exact absurd rfl h
    · exact absurd rfl h
  | cons p qs ih =>
    rw [through] at h ⊢
    split
    case isTrue hq => exact hq
    case isFalse hq =>
      rw [if_neg hq] at h
      rw [List.getLastD_cons]
      exact ih h q

/-- **Nothing is left out** when all is gathered that fits, and the section from which the search
goes on is one of those gathered. -/
theorem sections_gather {cs : List Char} (h : ∀ n, w.size (cs.take n) ≤ w.capacity)
    {low target : Nat} {taken qs : List Mark} (hlow : low < (taken ++ qs).length) :
    (w.gather cs low target taken qs).sections = taken ++ qs ∧
      (w.gather cs low target taken qs).low < (taken ++ qs).length := by
  fun_induction gather w cs low target taken qs with
  | case1 low target taken =>
    rw [List.append_nil] at hlow ⊢
    exact ⟨rfl, hlow⟩
  | case2 low target taken p qs more taken' last hlt =>
    -- The target is missed, so there was nothing left to split off.
    have hrest : (through target (p :: qs)).2 = [] := by
      by_contra hne
      exact Nat.lt_asymm hlt (lt_bytes_of_through hne p)
    have hmore : more = p :: qs := by
      rw [← through_append target (p :: qs), hrest, List.append_nil]
    exact ⟨congrArg (taken ++ ·) hmore, hlow⟩
  | case3 low target taken p qs more taken' last _ c hc =>
    exact absurd (h last.chars) (Nat.not_le_of_lt hc)
  | case4 low target taken p qs more rest taken' last _ c _ ih =>
    have hmore : more ≠ [] := through_cons_ne_nil target p qs
    have hall : taken' ++ rest = taken ++ p :: qs := by
      rw [List.append_assoc, through_append]
    have hpos : 0 < taken'.length :=
      List.length_pos_iff.2 (List.append_ne_nil_of_right_ne_nil taken hmore)
    have hlength : (taken' ++ rest).length = taken'.length + rest.length := List.length_append
    have hlow' : (if c < w.capacity then taken'.length - 1 else low) < (taken' ++ rest).length := by
      split
      · omega
      · rwa [hall]
    simp only [dite_eq_ite] at ih
    rw [← hall]
    exact ih hlow'

/-! ### The search comes to the end of what fits -/

/-- Where the search can be when every section fits: it has found nothing yet, or the section just
before the place it goes on from, or one that has just the capacity, with nothing left to look at
behind it. -/
inductive Seeks (cs : List Char) (sections : List Mark) :
    Nat → Nat → Option Found → Bool → Prop
  | fresh {low : Nat} (h : low < sections.length) : Seeks cs sections low sections.length none false
  | short {f : Found} (hf : w.IsEnd cs sections f) :
    Seeks cs sections (f.index + 1) sections.length (some f) false
  | exact {low high : Nat} {f : Found} (hf : w.IsEnd cs sections f) (h : f.size = w.capacity)
    (hhigh : high ≤ f.index) : Seeks cs sections low high (some f) true

section

variable {w} {cs : List Char} {sections : List Mark}
  (hsections : sections.Pairwise fun p q ↦ p.chars < q.chars)
include hsections

theorem chars_lt_of_getElem? {i j : Nat} {p q : Mark} (hp : sections[i]? = some p)
    (hq : sections[j]? = some q) (h : i < j) : p.chars < q.chars := by
  obtain ⟨hi, rfl⟩ := List.getElem?_eq_some_iff.1 hp
  obtain ⟨hj, rfl⟩ := List.getElem?_eq_some_iff.1 hq
  exact List.pairwise_iff_getElem.1 hsections i j hi hj h

variable {low high mid : Nat} {found : Option Found} {exact : Bool} {q : Mark}
  (h : w.Seeks cs sections low high found exact) (hlow : low ≤ mid) (hhigh : mid < high)
  (hq : sections[mid]? = some q)
include h hlow hhigh hq

/-- A section below the capacity is further than what was found, unless that has the capacity. -/
theorem Seeks.below (hc : w.size (cs.take q.chars) < w.capacity) :
    w.Seeks cs sections (mid + 1) high
      (if found.all fun f ↦ decide (f.stop < q.chars) then
        some ⟨mid, q.chars, w.size (cs.take q.chars)⟩ else found) exact := by
  have hend : w.IsEnd cs sections ⟨mid, q.chars, w.size (cs.take q.chars)⟩ :=
    ⟨q, hq, rfl, rfl, .inl (Nat.le_of_lt hc)⟩
  cases h with
  | fresh _ => exact .short hend
  | @short f hf =>
    obtain ⟨p, hp, hstop, -⟩ := id hf
    have hfurther : f.stop < q.chars := hstop ▸ chars_lt_of_getElem? hsections hp hq hlow
    rw [Option.all_some, if_pos (decide_eq_true hfurther)]
    exact .short hend
  | @exact _ _ f hf hsize hbehind =>
    obtain ⟨p, hp, hstop, -⟩ := id hf
    have hnearer : q.chars < f.stop :=
      hstop ▸ chars_lt_of_getElem? hsections hq hp (Nat.lt_of_lt_of_le hhigh hbehind)
    rw [Option.all_some, if_neg (by simpa using Nat.le_of_lt hnearer)]
    exact .exact hf hsize hbehind

/-- A section that has just the capacity is nearer than what was found. -/
theorem Seeks.reach (hc : w.size (cs.take q.chars) = w.capacity) :
    w.Seeks cs sections low mid
      (if !exact || found.any fun f ↦ decide (q.chars < f.stop) then
        some ⟨mid, q.chars, w.size (cs.take q.chars)⟩ else found) true := by
  have hend : w.IsEnd cs sections ⟨mid, q.chars, w.size (cs.take q.chars)⟩ :=
    ⟨q, hq, rfl, rfl, .inl (Nat.le_of_eq hc)⟩
  cases h with
  | fresh _ => exact .exact hend hc (Nat.le_refl mid)
  | short _ => exact .exact hend hc (Nat.le_refl mid)
  | @exact _ _ f hf _ hbehind =>
    obtain ⟨p, hp, hstop, -⟩ := hf
    have hnearer : q.chars < f.stop :=
      hstop ▸ chars_lt_of_getElem? hsections hq hp (Nat.lt_of_lt_of_le hhigh hbehind)
    rw [Option.any_some, if_pos (by simpa using hnearer)]
    exact .exact hend hc (Nat.le_refl mid)

end

/-- **The search comes to the last section or to one that has just the capacity.** -/
theorem exists_search {cs : List Char} {sections : List Mark}
    (hsize : ∀ n, w.size (cs.take n) ≤ w.capacity)
    (hsections : sections.Pairwise fun p q ↦ p.chars < q.chars) {low high : Nat}
    {found : Option Found} {exact : Bool} (h : w.Seeks cs sections low high found exact) :
    ∃ f, w.search cs sections low high found exact = some f ∧ w.IsEnd cs sections f ∧
      (f.size = w.capacity ∨ f.index + 1 = sections.length) := by
  fun_induction search w cs sections low high found exact with
  | case1 low high found exact hlt mid hnone =>
    -- There is always a section to look at.
    have hmid : mid < high := by omega
    have hout : sections.length ≤ mid := List.getElem?_eq_none_iff.1 hnone
    cases h with
    | fresh => omega
    | short => omega
    | exact hf _ hbehind =>
      obtain ⟨p, hp, -⟩ := hf
      obtain ⟨hin, -⟩ := List.getElem?_eq_some_iff.1 hp
      omega
  | case2 low high found exact _ mid q hq c here hc further ih =>
    simp only [dite_eq_ite] at ih
    exact ih (h.below hsections (by omega) (by omega) hq hc)
  | case3 low high found exact _ mid q hq c here _ hc nearer ih =>
    simp only [dite_eq_ite] at ih
    exact ih (h.reach hsections (by omega) (by omega) hq hc)
  | case4 low high found exact _ mid q hq c here hlt hne ih =>
    -- No section is too large.
    exact absurd (Nat.lt_of_le_of_ne (hsize q.chars) hne) hlt
  | case5 low high found exact hdone =>
    cases h with
    | fresh h => exact absurd h hdone
    | @short f hf =>
      obtain ⟨p, hp, -⟩ := id hf
      obtain ⟨hin, -⟩ := List.getElem?_eq_some_iff.1 hp
      exact ⟨f, rfl, hf, .inr (by omega)⟩
    | @exact _ _ f hf hexact _ => exact ⟨f, rfl, hf, .inl hexact⟩

/-! ### The chunk reaches the end -/

theorem le_extend_of_mem {cs : List Char} {best stop : Nat} {qs : List Mark}
    (h : ∀ q ∈ qs, w.size (cs.take q.chars) ≤ best) {q : Mark} (hq : q ∈ qs) :
    q.chars ≤ w.extend cs best stop qs := by
  induction qs generalizing stop with
  | nil => cases hq
  | cons p qs ih =>
    rw [extend, if_pos (h p (List.mem_cons_self ..))]
    rcases List.mem_cons.1 hq with rfl | hq
    · exact Nat.le_trans (Nat.le_max_right ..) (w.le_extend ..)
    · exact ih (fun q hq ↦ h q (List.mem_cons_of_mem _ hq)) hq

/-- From what the search comes to, the chunk is extended to the end of the last section. -/
theorem chars_le_extend {cs : List Char} {sections : List Mark} {f : Found}
    (hsize : ∀ n, w.size (cs.take n) ≤ w.capacity) (hf : w.IsEnd cs sections f)
    (hfound : f.size = w.capacity ∨ f.index + 1 = sections.length) {q : Mark}
    (hq : q ∈ sections.getLast?) :
    q.chars ≤ w.extend cs f.size f.stop (sections.drop (f.index + 1)) := by
  obtain ⟨p, hp, hstop, -⟩ := hf
  obtain ⟨hin, -⟩ := List.getElem?_eq_some_iff.1 hp
  rw [List.getLast?_eq_getElem?] at hq
  rcases Nat.lt_or_eq_of_le (Nat.succ_le_of_lt hin) with hmore | hlast
  · -- There are sections left behind what was found, and none of them is larger than that.
    have hcapacity : f.size = w.capacity := hfound.resolve_right (Nat.ne_of_lt hmore)
    have hmem : q ∈ sections.drop (f.index + 1) := by
      refine List.mem_iff_getElem?.2 ⟨sections.length - 1 - (f.index + 1), ?_⟩
      rw [List.getElem?_drop, Nat.add_sub_cancel' (by omega)]
      exact hq
    exact w.le_extend_of_mem (fun q _ ↦ hcapacity ▸ hsize q.chars) hmem
  · rw [← hlast, Nat.succ_sub_one, hp] at hq
    cases hq
    rw [← hstop]
    exact w.le_extend ..

theorem pairwise_ends {from_ : Mark} {cs : List Char} {ns : List Nat} (hpos : ∀ n ∈ ns, 0 < n) :
    (ends from_ cs ns).Pairwise fun p q ↦ p.chars < q.chars := by
  induction ns generalizing from_ cs with
  | nil => exact .nil
  | cons n ns ih =>
    have hpos' : ∀ m ∈ ns, 0 < m := fun m hm ↦ hpos m (List.mem_cons_of_mem _ hm)
    exact .cons (fun q hq ↦ (chars_of_mem_ends hpos' hq).1) (ih hpos')

/-- The last section ends with the text. -/
theorem chars_of_mem_getLast?_ends {from_ q : Mark} {cs : List Char} {ns : List Nat}
    (h : q ∈ (ends from_ cs ns).getLast?) : q.chars = from_.chars + ns.sum := by
  induction ns generalizing from_ cs with
  | nil => cases h
  | cons n ns ih =>
    rw [List.sum_cons, ← Nat.add_assoc]
    cases ns with
    | nil =>
      cases h
      rfl
    | cons m ns =>
      rw [ends, ends, List.getLast?_cons_cons] at h
      exact ih h

section

variable {r : Rest} (hr : r.Marked) (hpos : 0 < r.chars.length)
  (hfits : ∀ n, w.size (r.chars.take n) ≤ w.capacity) (longest : Option Nat)
include hr hpos hfits

/-- All sections of the level chosen are gathered. -/
theorem sections_gathered :
    (w.gathered r longest).sections =
        ends ⟨0, 0⟩ r.chars ((Plan.of w.size w.capacity r).level.sections r) ∧
      (w.gathered r longest).low < (w.gathered r longest).sections.length := by
  obtain ⟨ns, hns⟩ := Level.exists_sections_eq_cons hr hpos (Plan.of w.size w.capacity r).level
  have hsections : 0 < ([] ++ ends ⟨0, 0⟩ r.chars
      ((Plan.of w.size w.capacity r).level.sections r)).length := by
    rw [hns]
    exact Nat.succ_pos _
  rw [gathered, Plan.limit_eq_none hfits, within_none]
  obtain ⟨hall, hlow⟩ := w.sections_gather hfits hsections
  refine ⟨hall, ?_⟩
  rw [hall]
  exact hlow

/-- **The chunk reaches the end of the text.** -/
theorem stopOf_eq_length : w.stopOf r.chars (w.gathered r longest) = r.chars.length := by
  obtain ⟨hsections, hlow⟩ := w.sections_gathered hr hpos hfits longest
  have hpairwise : (w.gathered r longest).sections.Pairwise fun p q ↦ p.chars < q.chars := by
    rw [hsections]
    exact pairwise_ends fun _ ↦ Level.sections_pos
  obtain ⟨f, hf, hend, hfound⟩ := w.exists_search hfits hpairwise (.fresh hlow)
  obtain ⟨q, hq⟩ : ∃ q, (w.gathered r longest).sections.getLast? = some q :=
    ⟨_, List.getLast?_eq_some_getLast (List.ne_nil_of_length_pos (Nat.zero_lt_of_lt hlow))⟩
  have hlast : q.chars = r.chars.length := by
    rw [hsections] at hq
    rw [chars_of_mem_getLast?_ends hq, Level.sum_sections hr, Nat.zero_add]
  refine Nat.le_antisymm (w.stopOf_gathered hr hpos longest).2 ?_
  rw [stopOf, hf, ← hlast]
  exact w.chars_le_extend hfits hend hfound hq

end

/-- The chunk at a cursor is kept if it reaches further than those before it. -/
theorem exists_spansFrom_eq_cons {cursor reached : Nat} {longest : Option Nat}
    {r : Rest} (hpos : 0 < r.chars.length)
    (h : reached < cursor + w.stopOf r.chars (w.gathered r longest)) :
    ∃ further, w.spansFrom cursor reached longest r =
      ⟨cursor, cursor + w.stopOf r.chars (w.gathered r longest)⟩ :: further := by
  rcases r with ⟨_ | ⟨c, cs⟩, ms⟩
  · exact absurd hpos (Nat.lt_irrefl 0)
  · rw [spansFrom]
    exact ⟨_, if_pos h⟩

/-- **A text that fits is one chunk.** -/
theorem spans_eq_singleton {cs : List Char} (hpos : 0 < cs.length)
    (hfits : ∀ n, w.size (cs.take n) ≤ w.capacity) : w.spans cs = [⟨0, cs.length⟩] := by
  have hstop : w.stopOf cs (w.gathered (Rest.ofText cs) none) = cs.length :=
    w.stopOf_eq_length (Rest.marked_ofText cs) hpos hfits none
  have hreach : 0 < 0 + w.stopOf cs (w.gathered (Rest.ofText cs) none) := by
    rwa [hstop, Nat.zero_add]
  obtain ⟨further, hspans⟩ : ∃ further, w.spans cs =
      ⟨0, 0 + w.stopOf cs (w.gathered (Rest.ofText cs) none)⟩ :: further :=
    w.exists_spansFrom_eq_cons hpos hreach
  rw [hstop, Nat.zero_add] at hspans
  have hsweeps := w.sweeps_spans cs
  rw [hspans] at hsweeps ⊢
  -- A further chunk would have to end beyond the text.
  obtain ⟨-, -, -, -, hfurther⟩ := hsweeps
  cases further with
  | nil => rfl
  | cons s ss =>
    obtain ⟨-, -, hbeyond, hle, -⟩ := hfurther
    exact absurd hle (Nat.not_le_of_lt hbeyond)

end Window

/-! ### Texts that fit -/

namespace Sliding

variable (s : Sliding) {text : String}

theorem split_eq_singleton_of_fits (hne : text ≠ "")
    (hfits : ∀ n, s.window.size (text.toList.take n) ≤ s.sizing.size) :
    s.split text = [⟨text, 0⟩] := by
  have hpos : 0 < text.toList.length := by
    rw [String.length_toList]
    exact Nat.pos_of_ne_zero fun h ↦ hne (String.length_eq_zero_iff.1 h)
  rw [split, s.window.spans_eq_singleton hpos hfits]
  simp [Chunk.ofSpans, Chunk.ofSpansFrom]

/-- A text with no more bytes than the size asked for is one chunk, whatever it is counted in. -/
theorem split_eq_singleton_of_byteCount_le
    (hsize : ∀ cs, s.window.size cs ≤ Unicode.byteCount cs) (hne : text ≠ "")
    (h : Unicode.byteCount text.toList ≤ s.sizing.size) : s.split text = [⟨text, 0⟩] := by
  refine s.split_eq_singleton_of_fits hne fun n ↦ ?_
  calc s.window.size (text.toList.take n)
    _ ≤ Unicode.byteCount (text.toList.take n) := hsize _
    _ ≤ Unicode.byteCount (text.toList.take n ++ text.toList.drop n) := by
      rw [Unicode.byteCount_append]
      exact Nat.le_add_right ..
    _ ≤ s.sizing.size := by rwa [List.take_append_drop]

/-- **Text that fits is never cut**: counted in characters, a text with no more characters than the
size asked for is one chunk, which repeats nothing. -/
theorem split_eq_singleton (h : s.sizing.measure = .characters) (hne : text ≠ "")
    (hlength : text.length ≤ s.sizing.size) : s.split text = [⟨text, 0⟩] := by
  refine s.split_eq_singleton_of_fits hne fun n ↦ ?_
  rw [s.size_window_of_characters h, List.length_take, String.length_toList]
  exact Nat.le_trans (Nat.min_le_right ..) hlength

/-- Ten characters at most, and so many there are: blank lines, two sentences, a combining accent
and more bytes than characters. -/
theorem split_eq_singleton_ten :
    let s : Sliding := ⟨.characters 10 4, by decide, .standard⟩
    let text := "e\u0301\r\n\nA. 日本"
    text.length = 10 ∧ 10 < Unicode.byteCount text.toList ∧ s.split text = [⟨text, 0⟩] :=
  ⟨by decide, by decide,
    split_eq_singleton ⟨.characters 10 4, by decide, .standard⟩ rfl (by decide) (by decide)⟩

end Sliding

end CitedAnswers.Chunking
