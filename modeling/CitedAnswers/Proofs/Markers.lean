import CitedAnswers.Citation.Marker
import Mathlib.Data.List.DropRight

/-!
# The numbers of markers

`Marker.numbers` goes through an answer character by character and keeps track of its place within a
marker. Said without places: a marker is a part of the answer between brackets, in which numerals
are separated by commas with blanks around them (`Marker.Inner`), and the numbers found are the
values of the numerals of all markers, as far as they are sizes (`Marker.mem_numbers_iff`).

What a place in a marker still asks of the text, up to the closing bracket, is written down as
`Marker.Asks`; reading a marker is sound for it by induction on the reading
(`Marker.asks_of_items`), and complete by induction on what stands between the brackets
(`Marker.items_of_inner`).

Looking at every bracket finds the same as looking for one marker behind the other, splitting each
at its commas and reading the parts without blanks (`Marker.numbers_eq`). There is no bracket within
a marker, so no marker is passed over (`Marker.Scans.filterMap_allItems`).
-/

namespace CitedAnswers.Citation.Marker

/-! ### What a marker is -/

/-- A run of digits that is not empty. -/
structure IsNumeral (ds : List Char) : Prop where
  ne_nil : ds ≠ []
  isDigit : ∀ c ∈ ds, c.isDigit = true

/-- Nothing but blanks. -/
def AreBlank (bs : List Char) : Prop := ∀ c ∈ bs, isBlank c = true

/-- **What stands between the brackets of a marker**, and its items: numerals, with a comma between
two and perhaps blanks around the comma. -/
inductive Inner : List Char → List (List Char) → Prop where
  | single {ds : List Char} (h : IsNumeral ds) : Inner ds [ds]
  | cons {ds bs bs' cs : List Char} {is : List (List Char)} (h : IsNumeral ds) (hb : AreBlank bs)
    (hb' : AreBlank bs') (hc : Inner cs is) : Inner (ds ++ (bs ++ ',' :: (bs' ++ cs))) (ds :: is)

/-- A number occurs in a marker of an answer: it is the value of an item, leading zeros or not. -/
def Occurs (n : Nat) (answer : String) : Prop :=
  ∃ us cs vs is, answer.toList = us ++ '[' :: (cs ++ ']' :: vs) ∧ Inner cs is ∧
    ∃ ds ∈ is, Nat.ofDigitChars 10 ds 0 = n

theorem Inner.isNumeral {cs : List Char} {is : List (List Char)} (h : Inner cs is)
    {ds : List Char} (hds : ds ∈ is) : IsNumeral ds := by
  induction h with
  | single h =>
    obtain rfl := List.mem_singleton.1 hds
    exact h
  | cons h _ _ _ ih =>
    rcases List.mem_cons.1 hds with rfl | hds
    · exact h
    · exact ih hds

/-! ### Reading is sound -/

/-- What may follow an item: nothing, or a comma and further items. -/
def Follows (cs : List Char) (is : List (List Char)) : Prop :=
  cs = [] ∧ is = [] ∨
    ∃ bs bs' cs', cs = bs ++ ',' :: (bs' ++ cs') ∧ AreBlank bs ∧ AreBlank bs' ∧ Inner cs' is

/-- What a place in a marker still asks of the text up to the closing bracket. -/
def Asks : Place → List Char → List (List Char) → Prop
  | .bracket, cs, is => Inner cs is
  | .digits seen, cs, is =>
    ∃ ds cs' more, cs = ds ++ cs' ∧ (∀ c ∈ ds, c.isDigit = true) ∧ Follows cs' more ∧
      is = (seen.reverse ++ ds) :: more
  | .blanks, cs, is =>
    ∃ bs bs' cs', cs = bs ++ ',' :: (bs' ++ cs') ∧ AreBlank bs ∧ AreBlank bs' ∧ Inner cs' is
  | .comma, cs, is => ∃ bs cs', cs = bs ++ cs' ∧ AreBlank bs ∧ Inner cs' is

theorem AreBlank.cons {c : Char} {bs : List Char} (hc : isBlank c = true) (h : AreBlank bs) :
    AreBlank (c :: bs) :=
  List.forall_mem_cons.2 ⟨hc, h⟩

theorem areBlank_nil : AreBlank [] := fun _ h ↦ nomatch h

/-- A first digit and what the place after it asks for. -/
theorem inner_of_asks {c : Char} {cs : List Char} {is : List (List Char)} (hc : c.isDigit = true)
    (h : Asks (.digits [c]) cs is) : Inner (c :: cs) is := by
  obtain ⟨ds, cs', more, rfl, hds, hfollows, rfl⟩ := h
  have hnumeral : IsNumeral (c :: ds) := ⟨List.cons_ne_nil _ _, List.forall_mem_cons.2 ⟨hc, hds⟩⟩
  rcases hfollows with ⟨rfl, rfl⟩ | ⟨bs, bs', cs, rfl, hb, hb', hinner⟩
  · rw [List.append_nil]
    exact .single hnumeral
  · exact .cons hnumeral hb hb' hinner

/-- **What was read is what the place asks for**, up to a closing bracket. -/
theorem asks_of_items {p : Place} {cs : List Char} {is : List (List Char)}
    (h : items p cs = some is) : ∃ cs' vs, cs = cs' ++ ']' :: vs ∧ Asks p cs' is := by
  fun_induction items p cs generalizing is with
  | case1 => cases h
  | case2 c cs hc ih =>
    obtain ⟨cs', vs, rfl, hasks⟩ := ih h
    exact ⟨c :: cs', vs, rfl, inner_of_asks hc hasks⟩
  | case3 => cases h
  | case4 seen c cs hc ih =>
    obtain ⟨_, vs, rfl, ds, cs', more, rfl, hds, hfollows, rfl⟩ := ih h
    exact ⟨c :: (ds ++ cs'), vs, rfl, c :: ds, cs', more, rfl, List.forall_mem_cons.2 ⟨hc, hds⟩,
      hfollows, by rw [List.reverse_cons, List.append_assoc, List.singleton_append]⟩
  | case5 seen cs hc =>
    cases h
    exact ⟨[], cs, rfl, [], [], [], rfl, fun _ h ↦ (nomatch h), .inl ⟨rfl, rfl⟩,
      by rw [List.append_nil]⟩
  | case6 seen cs hc hc' ih =>
    obtain ⟨more, hmore, rfl⟩ := Option.map_eq_some_iff.1 h
    obtain ⟨_, vs, rfl, bs, cs', rfl, hb, hinner⟩ := ih hmore
    exact ⟨',' :: (bs ++ cs'), vs, rfl, [], _, more, rfl, fun _ h ↦ (nomatch h),
      .inr ⟨[], bs, cs', rfl, areBlank_nil, hb, hinner⟩, by rw [List.append_nil]⟩
  | case7 seen c cs hc hc' hc'' hblank ih =>
    obtain ⟨more, hmore, rfl⟩ := Option.map_eq_some_iff.1 h
    obtain ⟨_, vs, rfl, bs, bs', cs', rfl, hb, hb', hinner⟩ := ih hmore
    exact ⟨c :: (bs ++ ',' :: (bs' ++ cs')), vs, rfl, [], _, more, rfl, fun _ h ↦ (nomatch h),
      .inr ⟨c :: bs, bs', cs', rfl, hb.cons hblank, hb', hinner⟩, by rw [List.append_nil]⟩
  | case8 => cases h
  | case9 c cs hblank ih =>
    obtain ⟨_, vs, rfl, bs, bs', cs', rfl, hb, hb', hinner⟩ := ih h
    exact ⟨c :: (bs ++ ',' :: (bs' ++ cs')), vs, rfl, c :: bs, bs', cs', rfl, hb.cons hblank, hb',
      hinner⟩
  | case10 cs hblank ih =>
    obtain ⟨_, vs, rfl, bs, cs', rfl, hb, hinner⟩ := ih h
    exact ⟨',' :: (bs ++ cs'), vs, rfl, [], bs, cs', rfl, areBlank_nil, hb, hinner⟩
  | case11 => cases h
  | case12 c cs hblank ih =>
    obtain ⟨_, vs, rfl, bs, cs', rfl, hb, hinner⟩ := ih h
    exact ⟨c :: (bs ++ cs'), vs, rfl, c :: bs, cs', rfl, hb.cons hblank, hinner⟩
  | case13 c cs hblank hc ih =>
    obtain ⟨cs', vs, rfl, hasks⟩ := ih h
    exact ⟨c :: cs', vs, rfl, [], c :: cs', rfl, areBlank_nil, inner_of_asks hc hasks⟩
  | case14 => cases h

/-! ### Reading is complete -/

theorem isBlank_of_isDigit {c : Char} (h : c.isDigit = true) : isBlank c = false := by
  refine Bool.eq_false_iff.2 fun hblank ↦ ?_
  simp only [isBlank, Bool.or_eq_true, beq_iff_eq] at hblank
  rcases hblank with ((((rfl | rfl) | rfl) | rfl) | rfl) | rfl <;> revert h <;> decide

theorem ne_of_isBlank {b c : Char} (hb : isBlank b = true) (hc : isBlank c = false) : b ≠ c := by
  rintro rfl
  rw [hb] at hc
  cases hc

theorem items_digits_append {ds : List Char} (h : ∀ c ∈ ds, c.isDigit = true)
    (seen cs : List Char) :
    items (.digits seen) (ds ++ cs) = items (.digits (ds.reverse ++ seen)) cs := by
  induction ds generalizing seen with
  | nil => rfl
  | cons d ds ih =>
    obtain ⟨hd, hds⟩ := List.forall_mem_cons.1 h
    rw [List.cons_append, items, if_pos hd, ih hds, List.reverse_cons, List.append_assoc,
      List.singleton_append]

theorem items_blanks_append {bs : List Char} (h : AreBlank bs) (cs : List Char) :
    items .blanks (bs ++ cs) = items .blanks cs := by
  induction bs with
  | nil => rfl
  | cons b bs ih =>
    obtain ⟨hb, hbs⟩ := List.forall_mem_cons.1 h
    rw [List.cons_append, items, if_pos hb, ih hbs]

theorem items_comma_append {bs : List Char} (h : AreBlank bs) (cs : List Char) :
    items .comma (bs ++ cs) = items .comma cs := by
  induction bs with
  | nil => rfl
  | cons b bs ih =>
    obtain ⟨hb, hbs⟩ := List.forall_mem_cons.1 h
    rw [List.cons_append, items, if_pos hb, ih hbs]

/-- After a numeral, blanks and a comma end its item. -/
theorem items_digits_comma {bs : List Char} (h : AreBlank bs) (seen cs : List Char) :
    items (.digits seen) (bs ++ ',' :: cs) = (items .comma cs).map (seen.reverse :: ·) := by
  cases bs with
  | nil => rfl
  | cons b bs =>
    obtain ⟨hb, hbs⟩ := List.forall_mem_cons.1 h
    have hdigit : b.isDigit ≠ true := fun hd ↦ ne_of_isBlank hb (isBlank_of_isDigit hd) rfl
    have hbracket : b ≠ ']' := ne_of_isBlank hb (by decide)
    have hcomma : b ≠ ',' := ne_of_isBlank hb (by decide)
    rw [List.cons_append, items, if_neg hdigit, if_neg hbracket, if_neg hcomma, if_pos hb,
      items_blanks_append hbs]
    rfl

/-- A numeral is read whole, after a bracket and after a comma. -/
theorem items_numeral {ds : List Char} (h : IsNumeral ds) (cs : List Char) :
    items .bracket (ds ++ cs) = items (.digits ds.reverse) cs ∧
      items .comma (ds ++ cs) = items (.digits ds.reverse) cs := by
  obtain ⟨hne, hdigits⟩ := h
  cases ds with
  | nil => exact absurd rfl hne
  | cons d ds =>
    obtain ⟨hd, hds⟩ := List.forall_mem_cons.1 hdigits
    have hread : items (.digits [d]) (ds ++ cs) = items (.digits (d :: ds).reverse) cs := by
      rw [items_digits_append hds, List.reverse_cons]
    constructor
    · rw [List.cons_append, items, if_pos hd, hread]
    · rw [List.cons_append, items, isBlank_of_isDigit hd, if_neg Bool.false_ne_true, if_pos hd,
        hread]

/-- **What stands between brackets is read**, after a bracket and after a comma. -/
theorem items_of_inner {cs : List Char} {is : List (List Char)} (h : Inner cs is)
    (vs : List Char) :
    items .bracket (cs ++ ']' :: vs) = some is ∧ items .comma (cs ++ ']' :: vs) = some is := by
  induction h with
  | @single ds h =>
    have hread : items (.digits ds.reverse) (']' :: vs) = some [ds] :=
      congrArg (fun ds ↦ some [ds]) (List.reverse_reverse ds)
    obtain ⟨hbracket, hcomma⟩ := items_numeral h (']' :: vs)
    exact ⟨hbracket.trans hread, hcomma.trans hread⟩
  | @cons ds bs bs' cs is h hb hb' _ ih =>
    have hread : items (.digits ds.reverse) (bs ++ ',' :: (bs' ++ (cs ++ ']' :: vs))) =
        some (ds :: is) := by
      rw [items_digits_comma hb, items_comma_append hb', ih.2, Option.map_some,
        List.reverse_reverse]
    have hassoc : ds ++ (bs ++ ',' :: (bs' ++ cs)) ++ ']' :: vs =
        ds ++ (bs ++ ',' :: (bs' ++ (cs ++ ']' :: vs))) := by
      simp only [List.append_assoc, List.cons_append]
    obtain ⟨hbracket, hcomma⟩ := items_numeral h (bs ++ ',' :: (bs' ++ (cs ++ ']' :: vs)))
    rw [hassoc]
    exact ⟨hbracket.trans hread, hcomma.trans hread⟩

/-- **The items of a marker** after its opening bracket. -/
theorem items_bracket_eq_some_iff {cs : List Char} {is : List (List Char)} :
    items .bracket cs = some is ↔ ∃ cs' vs, cs = cs' ++ ']' :: vs ∧ Inner cs' is := by
  constructor
  · exact asks_of_items
  · rintro ⟨cs', vs, rfl, h⟩
    exact (items_of_inner h vs).1

/-! ### All markers of a text -/

/-- **The items found are those of all markers.** -/
theorem mem_allItems_iff {ds cs : List Char} :
    ds ∈ allItems cs ↔
      ∃ us cs' vs is, cs = us ++ '[' :: (cs' ++ ']' :: vs) ∧ Inner cs' is ∧ ds ∈ is := by
  fun_induction allItems cs with
  | case1 => simp
  | case2 cs ih =>
    rw [List.mem_append, ih]
    constructor
    · rintro (hds | ⟨us, cs', vs, is, rfl, hinner, hds⟩)
      · -- The marker begins here.
        cases hread : items .bracket cs with
        | none =>
          rw [hread] at hds
          cases hds
        | some is =>
          rw [hread] at hds
          obtain ⟨cs', vs, rfl, hinner⟩ := items_bracket_eq_some_iff.1 hread
          exact ⟨[], cs', vs, is, rfl, hinner, hds⟩
      · exact ⟨'[' :: us, cs', vs, is, rfl, hinner, hds⟩
    · rintro ⟨us, cs', vs, is, heq, hinner, hds⟩
      cases us with
      | nil =>
        cases heq
        rw [items_bracket_eq_some_iff.2 ⟨cs', vs, rfl, hinner⟩]
        exact .inl hds
      | cons u us =>
        cases heq
        exact .inr ⟨us, cs', vs, is, rfl, hinner, hds⟩
  | case3 c cs hc ih =>
    rw [ih]
    constructor
    · rintro ⟨us, cs', vs, is, rfl, hinner, hds⟩
      exact ⟨c :: us, cs', vs, is, rfl, hinner, hds⟩
    · rintro ⟨us, cs', vs, is, heq, hinner, hds⟩
      cases us with
      | nil =>
        cases heq
        exact absurd rfl hc
      | cons u us =>
        cases heq
        exact ⟨us, cs', vs, is, rfl, hinner, hds⟩

/-! ### Markers one after another -/

/-- A text without the blanks around it. -/
def trim (cs : List Char) : List Char := (cs.dropWhile isBlank).rdropWhile isBlank

theorem trim_blank_cons {b : Char} (h : isBlank b = true) (cs : List Char) :
    trim (b :: cs) = trim cs := by
  rw [trim, List.dropWhile_cons_of_pos h, trim]

theorem trim_numeral_append {ds bs : List Char} (h : IsNumeral ds) (hb : AreBlank bs) :
    trim (ds ++ bs) = ds := by
  obtain ⟨hne, hdigits⟩ := h
  have hstart : (ds ++ bs).dropWhile isBlank = ds ++ bs := by
    obtain ⟨d, ds', rfl⟩ := List.exists_cons_of_ne_nil hne
    have hd : isBlank d = false := isBlank_of_isDigit (hdigits d (List.mem_cons_self ..))
    rw [List.cons_append, List.dropWhile_cons_of_neg (by rw [hd]; exact Bool.false_ne_true)]
  have hend : ds.rdropWhile isBlank = ds := by
    refine List.rdropWhile_eq_self_iff.2 fun hl ↦ ?_
    rw [isBlank_of_isDigit (hdigits _ (List.getLast_mem hl))]
    exact Bool.false_ne_true
  rw [trim, hstart, List.rdropWhile, List.reverse_append,
    List.dropWhile_append_of_pos fun c hc ↦ hb c (List.mem_reverse.1 hc)]
  exact hend

/-- Blanks before an item belong to no item. -/
theorem map_trim_splitOn_blanks {bs : List Char} (h : AreBlank bs) (cs : List Char) :
    ((bs ++ cs).splitOn ',').map trim = (cs.splitOn ',').map trim := by
  induction bs with
  | nil => rfl
  | cons b bs ih =>
    obtain ⟨hb, hbs⟩ := List.forall_mem_cons.1 h
    have hcomma : ¬(b == ',') = true := fun heq ↦ ne_of_isBlank hb (by decide) (eq_of_beq heq)
    rw [List.cons_append, List.splitOn_cons_eq_if_modifyHead, if_neg hcomma, ← ih hbs]
    rcases (bs ++ cs).splitOn ',' with - | ⟨part, parts⟩
    · rfl
    · exact congrArg (· :: parts.map trim) (trim_blank_cons hb part)

theorem IsNumeral.not_mem {ds : List Char} (h : IsNumeral ds) {c : Char} (hc : c.isDigit = false) :
    c ∉ ds := by
  intro hmem
  rw [h.isDigit c hmem] at hc
  cases hc

theorem AreBlank.not_mem {bs : List Char} (h : AreBlank bs) {c : Char} (hc : isBlank c = false) :
    c ∉ bs :=
  fun hmem ↦ ne_of_isBlank (h c hmem) hc rfl

/-- **The items of a marker** are what stands between the commas, without blanks. -/
theorem Inner.map_trim_splitOn {cs : List Char} {is : List (List Char)} (h : Inner cs is) :
    (cs.splitOn ',').map trim = is := by
  induction h with
  | @single ds h =>
    have htrim : trim ds = ds := by simpa using trim_numeral_append h areBlank_nil
    rw [List.splitOn_eq_singleton (h.not_mem (by decide)), List.map_singleton, htrim]
  | @cons ds bs bs' cs is h hb hb' _ ih =>
    have hcomma : ',' ∉ ds ++ bs := by
      rw [List.mem_append, not_or]
      exact ⟨h.not_mem (by decide), hb.not_mem (by decide)⟩
    rw [← List.append_assoc, List.splitOn_append_cons_self_of_not_mem hcomma, List.map_cons,
      trim_numeral_append h hb, map_trim_splitOn_blanks hb', ih]

/-- A marker holds no other opening bracket than its first character. -/
theorem Inner.bracket_not_mem {cs : List Char} {is : List (List Char)} (h : Inner cs is) :
    '[' ∉ cs := by
  induction h with
  | single h => exact h.not_mem (by decide)
  | cons h hb hb' _ ih =>
    have hcomma : '[' ≠ ',' := by decide
    simp only [List.mem_append, List.mem_cons, not_or]
    exact ⟨h.not_mem (by decide), hb.not_mem (by decide), hcomma, hb'.not_mem (by decide), ih⟩

/-- An item is read as the number it is: it has no sign. -/
theorem IsNumeral.read? {ds : List Char} (h : IsNumeral ds) :
    Size.read? ds = Size.ofDigits? ds := by
  obtain ⟨hne, hdigits⟩ := h
  cases ds with
  | nil => exact absurd rfl hne
  | cons d ds =>
    have hsign : d ≠ '+' := by
      rintro rfl
      exact absurd (hdigits '+' (List.mem_cons_self ..)) (by decide)
    rw [Size.read?]
    rintro cs ⟨⟩
    exact hsign rfl

/-- Splitting a marker at its commas, dropping blanks and reading numbers loses no item. -/
theorem Inner.filterMap_read? {cs : List Char} {is : List (List Char)} (h : Inner cs is) :
    (cs.splitOn ',').filterMap (fun part ↦ Size.read? (trim part)) =
      is.filterMap Size.ofDigits? := by
  have hread : is.filterMap Size.read? = is.filterMap Size.ofDigits? :=
    List.filterMap_congr fun ds hds ↦ (h.isNumeral hds).read?
  rw [← hread, ← h.map_trim_splitOn, List.filterMap_map]
  rfl

/-- **Looking for markers from left to right**: where one begins, it is taken whole and the search
goes on behind it; where none begins, it goes on with the next character. What stands between the
brackets of each is listed. -/
inductive Scans : List Char → List (List Char) → Prop where
  | nil : Scans [] []
  | marker {body vs : List Char} {is bodies : List (List Char)} (hbody : Inner body is)
    (h : Scans vs bodies) : Scans ('[' :: (body ++ ']' :: vs)) (body :: bodies)
  | char {c : Char} {cs : List Char} {bodies : List (List Char)}
    (hc : ∀ body is vs, Inner body is → c :: cs ≠ '[' :: (body ++ ']' :: vs))
    (h : Scans cs bodies) : Scans (c :: cs) bodies

theorem exists_scans (cs : List Char) : ∃ bodies, Scans cs bodies := by
  induction hn : cs.length using Nat.strong_induction_on generalizing cs with
  | _ n ih =>
    cases cs with
    | nil => exact ⟨[], .nil⟩
    | cons c cs =>
      by_cases h : ∃ body is vs, Inner body is ∧ c :: cs = '[' :: (body ++ ']' :: vs)
      · obtain ⟨body, is, vs, hbody, heq⟩ := h
        have hlt : vs.length < n := by
          rw [← hn, heq]
          simp only [List.length_cons, List.length_append]
          omega
        obtain ⟨bodies, hvs⟩ := ih _ hlt vs rfl
        rw [heq]
        exact ⟨body :: bodies, .marker hbody hvs⟩
      · obtain ⟨bodies, hcs⟩ := ih cs.length (by rw [← hn]; exact Nat.lt_succ_self _) cs rfl
        exact ⟨bodies, .char (fun body is vs hbody heq ↦ h ⟨body, is, vs, hbody, heq⟩) hcs⟩

theorem allItems_cons_of_ne {c : Char} (h : c ≠ '[') (cs : List Char) :
    allItems (c :: cs) = allItems cs := by
  rw [allItems]
  exact h

theorem allItems_append {us : List Char} (h : '[' ∉ us) (cs : List Char) :
    allItems (us ++ cs) = allItems cs := by
  induction us with
  | nil => rfl
  | cons u us ih =>
    rw [List.mem_cons, not_or] at h
    rw [List.cons_append, allItems_cons_of_ne (Ne.symm h.1), ih h.2]

/-- **Looking from left to right finds what looking everywhere finds**, as no marker begins within
another one. -/
theorem Scans.filterMap_allItems {cs : List Char} {bodies : List (List Char)}
    (h : Scans cs bodies) : (allItems cs).filterMap Size.ofDigits? =
      bodies.flatMap fun body ↦ (body.splitOn ',').filterMap fun part ↦ Size.read? (trim part) := by
  induction h with
  | nil => rfl
  | @marker body vs is bodies hbody _ ih =>
    have hbracket : '[' ∉ body ++ [']'] := by
      rw [List.mem_append, not_or]
      exact ⟨hbody.bracket_not_mem, by decide⟩
    have hbehind : allItems (body ++ ']' :: vs) = allItems vs := by
      rw [List.append_cons, allItems_append hbracket]
    rw [allItems, items_bracket_eq_some_iff.2 ⟨body, vs, rfl, hbody⟩, Option.getD_some, hbehind,
      List.filterMap_append, List.flatMap_cons, hbody.filterMap_read?, ih]
  | @char c cs bodies hc _ ih =>
    by_cases hbracket : c = '['
    · subst hbracket
      have hnone : items .bracket cs = none := by
        refine Option.eq_none_iff_forall_ne_some.2 fun is hread ↦ ?_
        obtain ⟨body, vs, rfl, hbody⟩ := items_bracket_eq_some_iff.1 hread
        exact hc body is vs hbody rfl
      rw [allItems, hnone]
      exact ih
    · rw [allItems_cons_of_ne hbracket, ih]

/-- The numbers found are those of the markers one after another, each split at its commas. -/
theorem numbers_eq (answer : String) : ∃ bodies, Scans answer.toList bodies ∧
    numbers answer = Ascending.ofList (bodies.flatMap fun body ↦
      (body.splitOn ',').filterMap fun part ↦ Size.read? (trim part)) := by
  obtain ⟨bodies, h⟩ := exists_scans answer.toList
  exact ⟨bodies, h, by rw [numbers, h.filterMap_allItems]⟩

/-! ### Numbers that occur -/

theorem IsNumeral.ofDigits? {ds : List Char} (h : IsNumeral ds) :
    Size.ofDigits? ds = (some (Nat.ofDigitChars 10 ds 0)).filter (· < Size.bound) := by
  have hne : ds.isEmpty = false := List.isEmpty_eq_false_iff.2 h.ne_nil
  have hall : ds.all Char.isDigit = true := List.all_eq_true.2 h.isDigit
  rw [Size.ofDigits?, Size.valueOfDigits?, hne, hall]
  rfl

/-- **The numbers found are those that occur in markers**, as far as they are sizes. -/
theorem mem_numbers_iff {n : Nat} {answer : String} :
    n ∈ numbers answer ↔ Occurs n answer ∧ n < Size.bound := by
  rw [numbers, Ascending.mem_ofList, List.mem_filterMap]
  constructor
  · rintro ⟨ds, hds, hn⟩
    obtain ⟨us, cs, vs, is, heq, hinner, hmem⟩ := mem_allItems_iff.1 hds
    rw [(hinner.isNumeral hmem).ofDigits?, Option.filter_eq_some_iff] at hn
    obtain ⟨hvalue, hlt⟩ := hn
    exact ⟨⟨us, cs, vs, is, heq, hinner, ds, hmem, Option.some.inj hvalue⟩, of_decide_eq_true hlt⟩
  · rintro ⟨⟨us, cs, vs, is, heq, hinner, ds, hmem, rfl⟩, hlt⟩
    refine ⟨ds, mem_allItems_iff.2 ⟨us, cs, vs, is, heq, hinner, hmem⟩, ?_⟩
    rw [(hinner.isNumeral hmem).ofDigits?, Option.filter_eq_some_iff]
    exact ⟨rfl, decide_eq_true hlt⟩

end CitedAnswers.Citation.Marker
