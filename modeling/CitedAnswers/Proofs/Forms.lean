import CitedAnswers.Proofs.Rebuilding
import Mathlib.Data.List.Forall2
import Mathlib.Data.String.Basic

/-!
# Values are read back from what is written for them

A `Form` is how the values of a type are read and written in JSON. It restores values at a depth
(`Form.Restores`) if every value that it reads there from any tree is read again from the tree that
it writes for that value, and this tree has a text. So a form need not restore every value of the
type, but only those that occur: integers in the range of a numeral, dictionaries with their keys
in order.

Floating-point numbers are taken for granted: that a finite number is read back from its own text is
asked of the numbers in a value (`Floating.Faithful`), nothing else is. The forms of simple types
restore at every depth. Those of options, arrays and dictionaries restore if the forms of what they
hold do, one level down; that a dictionary is read as it stands rests on its keys being in order,
which reading it has seen to.
-/

namespace CitedAnswers

/-- The number is neither infinite nor none. -/
def Binary.IsFinite : Binary → Prop
  | .finite .. => True
  | .infinite _ | .nan => False

namespace Json

/-! ### Steps that succeed -/

section

variable {ε α β : Type} {x : Except ε α} {b : β}

theorem bind_eq_ok_iff {f : α → Except ε β} :
    (x >>= f) = .ok b ↔ ∃ a, x = .ok a ∧ f a = .ok b := by
  rcases x with e | a
  · exact ⟨nofun, nofun⟩
  · exact ⟨fun h ↦ ⟨a, rfl, h⟩, fun ⟨_, ha, h⟩ ↦ by cases ha; exact h⟩

theorem map_eq_ok_iff {f : α → β} : x.map f = .ok b ↔ ∃ a, x = .ok a ∧ f a = b := by
  rcases x with e | a
  · exact ⟨nofun, nofun⟩
  · exact ⟨fun h ↦ ⟨a, rfl, Except.ok.inj h⟩, fun ⟨_, ha, h⟩ ↦ by cases ha; exact congrArg _ h⟩

theorem Ending.check_eq_ok_iff {e : Ending} : e.check = .ok () ↔ e = .closed := by
  rcases e with - | c
  · exact ⟨fun _ ↦ rfl, fun _ ↦ rfl⟩
  · exact ⟨nofun, nofun⟩

theorem enter_eq_ok_iff {depth : Nat} {inside : Nat → Except Fault β} :
    enter depth inside = .ok b ↔ ∃ d, depth = d + 1 ∧ inside d = .ok b := by
  rcases depth with - | d
  · exact ⟨nofun, nofun⟩
  · exact ⟨fun h ↦ ⟨d, rfl, h⟩, fun ⟨_, hd, h⟩ ↦ by cases hd; exact h⟩

end

/-! ### Texts of values -/

namespace Reader

variable {α : Type}

/-- Some tree is read as the value. -/
def Reads (r : Reader α) (depth : Nat) (a : α) : Prop := ∃ t, r depth t = .ok a

theorem run_text (r : Reader α) {t : Tree} (h : t.Whole) : r.run t.text = r depthLimit t := by
  rw [run, Tree.ofText_text h]
  rcases hread : r depthLimit t with f | a <;> simp only [hread] <;> rfl

theorem reads_of_run {r : Reader α} {s : String} {a : α} (h : r.run s = .ok a) :
    Reads r depthLimit a := by
  rw [run] at h
  generalize Tree.ofText s = p at h
  rcases p with ⟨t, more⟩
  rcases hread : r depthLimit t with f | b
  · simp only [hread] at h
    nomatch h
  · simp only [hread] at h
    rcases more with - | -
    · exact ⟨t, hread.trans h⟩
    · nomatch h

end Reader

/-! ### Floating-point numbers in values -/

/-- A floating-point number in a value, of 32 or of 64 bits. -/
inductive Floating where
  | single (x : Binary)
  | double (x : Binary)
deriving DecidableEq

namespace Floating

/-- The number itself. -/
def number : Floating → Binary
  | single x | double x => x

/-- A number is read back from its own text as the same number. -/
def ReadsBack : Floating → Prop
  | single x => Reader.single.run (Tree.ofBinary .single x).text = .ok x
  | double x => Reader.value.run (Tree.ofBinary .double x).text = .ok (.float x)

/-- What is asked of a number in a value: that it is read back, if it is finite, and that it is
finite, if it has 32 bits. -/
def Faithful (n : Floating) : Prop :=
  (∀ x, n = single x → x.IsFinite) ∧ (n.number.IsFinite → n.ReadsBack)

end Floating

theorem exists_ite_eq_some {α : Type} (p : Prop) [Decidable p] (a b : α) :
    ∃ c, (if p then some a else some b) = some c := by
  by_cases hp : p
  · exact ⟨a, if_pos hp⟩
  · exact ⟨b, if_neg hp⟩

theorem exists_ofBinary (f : Binary.Format) {x : Binary} (h : x.IsFinite) :
    ∃ n : Numeral, Tree.ofBinary f x = .number n ∧ n.Proper := by
  rcases x with ⟨s, m, e⟩ | s | -
  · obtain ⟨n, hn⟩ : ∃ n, Numeral.ofBinary? f (.finite s m e) = some n := by
      rw [Numeral.ofBinary?]
      exact exists_ite_eq_some _ _ _
    exact ⟨n, by rw [Tree.ofBinary, hn], Numeral.proper_ofBinary? hn⟩
  · exact h.elim
  · exact h.elim

/-- A finite number is read at any depth from the tree that is written for it. -/
theorem Floating.Faithful.single {x : Binary} (h : (Floating.single x).Faithful) (depth : Nat) :
    Reader.single depth (.ofBinary .single x) = .ok x ∧ (Tree.ofBinary .single x).Whole := by
  have hfinite := h.1 x rfl
  have hback : Reader.single.run (Tree.ofBinary .single x).text = .ok x := h.2 hfinite
  obtain ⟨n, hn, hproper⟩ := exists_ofBinary .single hfinite
  rw [hn] at hback ⊢
  have hwhole : (Tree.number n).Whole := hproper
  exact ⟨(Reader.run_text _ hwhole).symm.trans hback, hwhole⟩

theorem Floating.Faithful.double {x : Binary} (h : (Floating.double x).Faithful)
    (hfinite : x.IsFinite) (depth : Nat) :
    Reader.value depth (.ofBinary .double x) = .ok (.float x) ∧
      (Tree.ofBinary .double x).Whole := by
  have hback : Reader.value.run (Tree.ofBinary .double x).text = .ok (.float x) := h.2 hfinite
  obtain ⟨n, hn, hproper⟩ := exists_ofBinary .double hfinite
  rw [hn] at hback ⊢
  have hwhole : (Tree.number n).Whole := hproper
  exact ⟨(Reader.run_text _ hwhole).symm.trans hback, hwhole⟩

/-- A number of 64 bits is read back if the numeral that is written for it stands for it. -/
theorem Floating.readsBack_double {x : Binary} {n : Numeral}
    (hn : Numeral.ofBinary? .double x = some n) (hinteger : n.integer? = none)
    (hfloat : n.float? = some x) : (double x).ReadsBack := by
  have htree : Tree.ofBinary .double x = .number n := by rw [Tree.ofBinary, hn]
  have hwhole : (Tree.number n).Whole := Numeral.proper_ofBinary? hn
  show Reader.value.run (Tree.ofBinary .double x).text = .ok (.float x)
  rw [htree, Reader.run_text _ hwhole]
  show Value.ofNumeral n = .ok (.float x)
  rw [Value.ofNumeral, hinteger, hfloat]

/-! ### Integers -/

namespace Numeral

/-- A numeral stands for integers of 64 bits, with or without a sign, only. -/
theorem range_of_integer? {n : Numeral} {i : Int} (h : n.integer? = some i) :
    -(Size.half : Int) ≤ i ∧ i < Size.bound := by
  simp only [integer?, Option.ite_none_right_eq_some] at h
  obtain ⟨-, h⟩ := h
  have hhalf : (Size.half : Int) < Size.bound := by decide
  rcases hnegative : n.negative with - | -
  · have hvalue := h
    simp only [hnegative, Bool.false_eq_true, if_false, Option.ite_none_right_eq_some,
      Option.some.injEq] at hvalue
    omega
  · have hvalue := h
    simp only [hnegative, if_true, Option.ite_none_right_eq_some, Option.some.injEq] at hvalue
    omega

/-- **The integers of numerals are read back.** -/
theorem integer?_ofInt {i : Int} (h : -(Size.half : Int) ≤ i ∧ i < Size.bound) :
    (ofInt i).integer? = some i := by
  have hvalue : Nat.ofDigitChars 10 (Size.digits i.natAbs) 0 = i.natAbs :=
    Nat.ofDigitChars_ten_toDigits
  have hinteger : (ofInt i).integer? =
      if i < 0 then if 0 < i.natAbs ∧ i.natAbs ≤ Size.half then some (-(i.natAbs : Int)) else none
      else if i.natAbs < Size.bound then some (i.natAbs : Int) else none := by
    simp only [ofInt, integer?, hvalue, decide_eq_true_eq, List.isEmpty_nil, Option.isNone_none,
      Bool.and_self, if_true]
  rw [hinteger]
  rcases Int.lt_or_le i 0 with hi | hi
  · have hneg : -(i.natAbs : Int) = i := by omega
    rw [if_pos hi, if_pos (by omega), hneg]
  · have hpos : (i.natAbs : Int) = i := by omega
    rw [if_neg (by omega), if_pos (by omega), hpos]

theorem integer?_ofNat {n : Nat} (h : n < Size.bound) : (ofNat n).integer? = some (n : Int) := by
  have hvalue : Nat.ofDigitChars 10 (Size.digits n) 0 = n := Nat.ofDigitChars_ten_toDigits
  simp [ofNat, integer?, hvalue, h]

theorem isFinite_of_float? {n : Numeral} {x : Binary} (h : n.float? = some x) : x.IsFinite := by
  rw [float?] at h
  dsimp only at h
  split at h
  · cases h
    trivial
  · cases h

end Numeral

/-! ### Forms -/

/-- How the values of a type are read and written, and the floating-point numbers in them. -/
structure Form (α : Type) where
  read : Reader α
  tree : α → Tree
  numbers : α → List Floating

namespace Form

variable {α β κ : Type}

/-- **The values that are read at a depth are read again** from what is written for them. -/
def Restores (F : Form α) (depth : Nat) : Prop :=
  ∀ a, F.read.Reads depth a → (∀ n ∈ F.numbers a, n.Faithful) →
    F.read depth (F.tree a) = .ok a ∧ (F.tree a).Whole

/-- Values are restored wherever at least so many containers may be entered. -/
def RestoresFrom (F : Form α) (k : Nat) : Prop := ∀ depth, k ≤ depth → F.Restores depth

theorem RestoresFrom.mono {F : Form α} {k l : Nat} (h : F.RestoresFrom k) (hkl : k ≤ l) :
    F.RestoresFrom l :=
  fun depth hdepth ↦ h depth (Nat.le_trans hkl hdepth)

/-- Strings. -/
def string : Form String := ⟨Reader.string, Tree.ofString, fun _ ↦ []⟩

/-- Truth values. -/
def bool : Form Bool := ⟨Reader.bool, Tree.bool, fun _ ↦ []⟩

/-- Sizes. -/
def size : Form Nat := ⟨Reader.size, Tree.ofNat, fun _ ↦ []⟩

/-- Floating-point numbers of 32 bits. -/
def single : Form Binary := ⟨Reader.single, .ofBinary .single, fun x ↦ [.single x]⟩

/-- Alternatives without content, which are written by their names. -/
def name (names : String → Option α) (nameOf : α → String) : Form α :=
  ⟨Reader.name names, fun a ↦ .ofString (nameOf a), fun _ ↦ []⟩

/-- A value or `null`. -/
def option (F : Form α) : Form (Option α) :=
  ⟨Reader.option F.read, fun o ↦ (o.map F.tree).getD .null, fun o ↦ (o.map F.numbers).getD []⟩

/-- Arrays. -/
def list (F : Form α) : Form (List α) :=
  ⟨Reader.list F.read, fun as ↦ .ofList (as.map F.tree), fun as ↦ as.flatMap F.numbers⟩

/-- Dictionaries. -/
def dictionary [DecidableEq κ] (before : κ → κ → Bool) (key : String → Option κ)
    (nameOf : κ → String) (F : Form α) : Form (List (κ × α)) :=
  ⟨Reader.dictionary before key F.read,
    fun es ↦ .ofFields (es.map fun e ↦ (nameOf e.1, some (F.tree e.2))),
    fun es ↦ es.flatMap fun e ↦ F.numbers e.2⟩

/-! ### Simple forms -/

theorem restoresFrom_string : string.RestoresFrom 0 := fun _ _ s _ _ ↦
  ⟨rfl, Option.some_ne_none s⟩

theorem restoresFrom_bool : bool.RestoresFrom 0 := fun _ _ _ _ _ ↦ ⟨rfl, trivial⟩

theorem restoresFrom_single : single.RestoresFrom 0 := fun depth _ x _ hfaithful ↦
  (hfaithful (.single x) (List.mem_singleton_self _)).single depth

theorem exists_integer?_of_size {depth : Nat} {t : Tree} {k : Nat}
    (h : Reader.size depth t = .ok k) : ∃ n : Numeral, n.integer? = some (k : Int) := by
  unfold Reader.size at h
  split at h
  · rename_i n
    split at h
    · rename_i i hi
      cases h
      exact ⟨n, hi⟩
    · cases h
  · cases h

/-- What is read as a size is one. -/
theorem lt_bound_of_reads_size {depth k : Nat} (h : size.read.Reads depth k) : k < Size.bound := by
  obtain ⟨t, ht⟩ := h
  obtain ⟨n, hn⟩ := exists_integer?_of_size (show Reader.size depth t = .ok k from ht)
  exact_mod_cast (Numeral.range_of_integer? hn).2

theorem restoresFrom_size : size.RestoresFrom 0 := by
  rintro depth - k hreads -
  refine ⟨?_, Numeral.proper_ofNat k⟩
  show Reader.size depth (.number (.ofNat k)) = .ok k
  rw [Reader.size, Numeral.integer?_ofNat (lt_bound_of_reads_size hreads)]

theorem restoresFrom_name {names : String → Option α} {nameOf : α → String}
    (h : ∀ a, names (nameOf a) = some a) : (name names nameOf).RestoresFrom 0 := by
  intro depth _ a _ _
  refine ⟨?_, Option.some_ne_none _⟩
  show Reader.name names depth (.string (some (nameOf a))) = .ok a
  rw [Reader.name, h]

/-! ### Options and arrays -/

/-- `null` is none of the values. -/
def RefusesNull (F : Form α) : Prop := ∀ depth a, F.read depth .null ≠ .ok a

theorem reads_of_option {r : Reader α} {depth : Nat} {a : α}
    (h : (Reader.option r).Reads depth (some a)) : r.Reads depth a := by
  obtain ⟨t, ht⟩ := h
  unfold Reader.option at ht
  split at ht
  · cases ht
  · obtain ⟨b, hb, heq⟩ := map_eq_ok_iff.1 ht
    exact ⟨t, hb.trans (congrArg _ (Option.some.inj heq))⟩

theorem restores_option {F : Form α} (hnull : F.RefusesNull) {depth : Nat}
    (h : F.Restores depth) : F.option.Restores depth := by
  intro o ho hfaithful
  rcases o with - | a
  · exact ⟨rfl, trivial⟩
  · obtain ⟨hback, hwhole⟩ := h a (reads_of_option ho) hfaithful
    refine ⟨?_, hwhole⟩
    -- What is written for a value is not `null`, so it is read as that value.
    have hread : Reader.option F.read depth (F.tree a) = (F.read depth (F.tree a)).map some := by
      rw [Reader.option]
      intro heq
      rw [heq] at hback
      exact hnull depth a hback
    exact hread.trans (map_eq_ok_iff.2 ⟨a, hback, rfl⟩)

theorem restoresFrom_option {F : Form α} (hnull : F.RefusesNull) {k : Nat}
    (h : F.RestoresFrom k) : F.option.RestoresFrom k :=
  fun depth hdepth ↦ restores_option hnull (h depth hdepth)

/-- Items are read one by one. -/
theorem items_eq_ok_iff {r : Reader α} {depth : Nat} {ts : List Tree} {as : List α} :
    Reader.items r depth ts = .ok as ↔ List.Forall₂ (fun t a ↦ r depth t = .ok a) ts as := by
  induction ts generalizing as with
  | nil =>
    rw [List.forall₂_nil_left_iff]
    exact ⟨fun h ↦ (Except.ok.inj h).symm, fun h ↦ by rw [h]; rfl⟩
  | cons t ts ih =>
    rw [Reader.items]
    simp only [bind_eq_ok_iff, ih, List.forall₂_cons_left_iff]
    exact ⟨fun ⟨a, ha, bs, hbs, h⟩ ↦ ⟨a, bs, ha, hbs, (Except.ok.inj h).symm⟩,
      fun ⟨a, bs, ha, hbs, h⟩ ↦ ⟨a, ha, bs, hbs, by rw [h]; rfl⟩⟩

theorem reads_of_mem_items {r : Reader α} {depth : Nat} {ts : List Tree} {as : List α}
    (h : Reader.items r depth ts = .ok as) {a : α} (ha : a ∈ as) : r.Reads depth a := by
  have hitems := items_eq_ok_iff.1 h
  induction hitems with
  | nil => cases ha
  | @cons t b ts as htb hts ih =>
    rcases List.mem_cons.1 ha with rfl | ha
    · exact ⟨t, htb⟩
    · exact ih (items_eq_ok_iff.2 hts) ha

theorem restores_items {F : Form α} {depth : Nat} (h : F.Restores depth) {as : List α}
    (has : ∀ a ∈ as, F.read.Reads depth a) (hfaithful : ∀ n ∈ F.list.numbers as, n.Faithful) :
    Reader.items F.read depth (as.map F.tree) = .ok as ∧ Tree.WholeItems (as.map F.tree) := by
  have hitem : ∀ a ∈ as, F.read depth (F.tree a) = .ok a ∧ (F.tree a).Whole := fun a ha ↦
    h a (has a ha) fun n hn ↦ hfaithful n (List.mem_flatMap.2 ⟨a, ha, hn⟩)
  refine ⟨?_, ?_⟩
  · rw [items_eq_ok_iff, List.forall₂_map_left_iff, List.forall₂_same]
    exact fun a ha ↦ (hitem a ha).1
  · rw [Tree.wholeItems_iff]
    exact fun t ht ↦ by
      obtain ⟨a, ha, rfl⟩ := List.mem_map.1 ht
      exact (hitem a ha).2

/-- An array is read through its closing bracket, one level down. -/
theorem list_eq_ok_iff {r : Reader α} {depth : Nat} {t : Tree} {as : List α} :
    Reader.list r depth t = .ok as ↔
      ∃ d ts, depth = d + 1 ∧ t = .array ts .closed ∧ Reader.items r d ts = .ok as := by
  constructor
  · intro h
    unfold Reader.list at h
    split at h
    · rename_i ts ending
      simp only [enter_eq_ok_iff, bind_eq_ok_iff] at h
      obtain ⟨d, hdepth, bs, hbs, _, hending, has⟩ := h
      rw [← Except.ok.inj has]
      exact ⟨d, ts, hdepth, by rw [Ending.check_eq_ok_iff.1 hending], hbs⟩
    · cases h
  · rintro ⟨d, ts, rfl, rfl, hts⟩
    show (Reader.items r d ts >>= fun as ↦ Ending.closed.check >>= fun _ ↦ pure as) = .ok as
    rw [hts]
    rfl

theorem restores_list {F : Form α} {depth : Nat} (h : F.Restores depth) :
    F.list.Restores (depth + 1) := by
  rintro as ⟨t, ht⟩ hfaithful
  obtain ⟨d, ts, hdepth, -, hts⟩ := list_eq_ok_iff.1 ht
  cases hdepth
  obtain ⟨hback, hwhole⟩ := restores_items h (fun a ha ↦ reads_of_mem_items hts ha) hfaithful
  exact ⟨list_eq_ok_iff.2 ⟨depth, _, rfl, rfl, hback⟩, rfl, hwhole⟩

theorem restoresFrom_list {F : Form α} {k : Nat} (h : F.RestoresFrom k) :
    F.list.RestoresFrom (k + 1) := by
  intro depth hdepth
  obtain ⟨d, rfl⟩ := Nat.exists_eq_add_of_lt hdepth
  exact restores_list (h (k + d) (Nat.le_add_right ..))

end Form

/-! ### Dictionaries -/

/-- An order of keys, strict and total. -/
structure KeyOrder {κ : Type} (before : κ → κ → Bool) : Prop where
  irrefl : ∀ k, before k k = false
  trans : ∀ j k l, before j k = true → before k l = true → before j l = true
  total : ∀ k l, k ≠ l → before k l = false → before l k = true

section Dictionaries

variable {κ α : Type} [DecidableEq κ] {before : κ → κ → Bool} {k : κ} {a : α} {es : List (κ × α)}

/-- The keys stand in their order, each once. -/
def Ordered (before : κ → κ → Bool) (es : List (κ × α)) : Prop :=
  es.Pairwise fun x y ↦ before x.1 y.1 = true

theorem mem_of_mem_insertSorted {e : κ × α} (h : e ∈ insertSorted before k a es) :
    e = (k, a) ∨ e ∈ es := by
  induction es with
  | nil => exact .inl (List.mem_singleton.1 h)
  | cons e' es ih =>
    obtain ⟨l, b⟩ := e'
    rw [insertSorted] at h
    split_ifs at h
    · exact (List.mem_cons.1 h).imp id (List.mem_cons_of_mem _)
    · exact List.mem_cons.1 h
    · rcases List.mem_cons.1 h with rfl | h
      · exact .inr (List.mem_cons_self ..)
      · exact (ih h).imp id (List.mem_cons_of_mem _)

theorem KeyOrder.ordered_insertSorted (hbefore : KeyOrder before) (k : κ) (a : α)
    (h : Ordered before es) : Ordered before (insertSorted before k a es) := by
  induction es with
  | nil => exact List.pairwise_singleton ..
  | cons e es ih =>
    obtain ⟨l, b⟩ := e
    obtain ⟨hl, hes⟩ := List.pairwise_cons.1 h
    rw [insertSorted]
    split_ifs with hkey hlt
    · exact List.pairwise_cons.2 ⟨fun e he ↦ by rw [hkey]; exact hl e he, hes⟩
    · refine List.pairwise_cons.2 ⟨fun e he ↦ ?_, h⟩
      rcases List.mem_cons.1 he with rfl | he
      · exact hlt
      · exact hbefore.trans k l e.1 hlt (hl e he)
    · refine List.pairwise_cons.2 ⟨fun e he ↦ ?_, ih hes⟩
      rcases mem_of_mem_insertSorted he with rfl | he
      · exact hbefore.total k l hkey (by simpa using hlt)
      · exact hl e he

/-- An entry behind all others is added at the end. -/
theorem KeyOrder.insertSorted_eq_append (hbefore : KeyOrder before)
    (h : ∀ e ∈ es, before e.1 k = true) : insertSorted before k a es = es ++ [(k, a)] := by
  induction es with
  | nil => rfl
  | cons e es ih =>
    obtain ⟨l, b⟩ := e
    have hlk : before l k = true := h (l, b) (List.mem_cons_self ..)
    have hne : k ≠ l := by
      rintro rfl
      rw [hbefore.irrefl] at hlk
      cases hlk
    have hkl : ¬before k l = true := fun hkl ↦ by
      have := hbefore.trans k l k hkl hlk
      rw [hbefore.irrefl] at this
      cases this
    rw [insertSorted, if_neg hne, if_neg hkl, ih fun e he ↦ h e (List.mem_cons_of_mem _ he)]
    rfl

variable {key : String → Option κ} {r : Reader α} {depth : Nat}

/-- **What is read of a dictionary**: entries in the order of their keys, with values that are
read. -/
theorem KeyOrder.of_entries (hbefore : KeyOrder before) {fs : List (Option String × Tree)}
    {before' after : List (κ × α)} (h : Reader.entries before key r depth before' fs = .ok after)
    (hordered : Ordered before before') (hreads : ∀ e ∈ before', r.Reads depth e.2) :
    Ordered before after ∧ ∀ e ∈ after, r.Reads depth e.2 := by
  induction fs generalizing before' with
  | nil =>
    cases h
    exact ⟨hordered, hreads⟩
  | cons f fs ih =>
    obtain ⟨_ | name, t⟩ := f
    · cases h
    · rw [Reader.entries] at h
      rcases hkey : key name with - | k
      · rw [hkey] at h
        cases h
      · rw [hkey] at h
        obtain ⟨a, ha, h⟩ := bind_eq_ok_iff.1 h
        refine ih h (hbefore.ordered_insertSorted k a hordered) fun e he ↦ ?_
        rcases mem_of_mem_insertSorted he with rfl | he
        · exact ⟨t, ha⟩
        · exact hreads e he

/-- Entries in the order of their keys are read as they stand. -/
theorem KeyOrder.entries_eq (hbefore : KeyOrder before) {nameOf : κ → String} {tree : α → Tree}
    (hkey : ∀ k, key (nameOf k) = some k) {before' after : List (κ × α)}
    (hordered : Ordered before (before' ++ after))
    (htree : ∀ e ∈ after, r depth (tree e.2) = .ok e.2) :
    Reader.entries before key r depth before'
        (after.map fun e ↦ (some (nameOf e.1), tree e.2)) =
      .ok (before' ++ after) := by
  induction after generalizing before' with
  | nil => rw [List.append_nil]; rfl
  | cons e after ih =>
    obtain ⟨k, a⟩ := e
    have hbehind : ∀ e ∈ before', before e.1 k = true := fun e he ↦
      (List.pairwise_append.1 hordered).2.2 e he (k, a) (List.mem_cons_self ..)
    have hnext : before' ++ (k, a) :: after = (before' ++ [(k, a)]) ++ after := by simp
    have ha : r depth (tree a) = .ok a := htree (k, a) (List.mem_cons_self ..)
    rw [List.map_cons, Reader.entries, hkey, ha]
    show Reader.entries before key r depth (insertSorted before k a before') _ = _
    rw [hbefore.insertSorted_eq_append hbehind, hnext]
    rw [hnext] at hordered
    exact ih hordered fun e he ↦ htree e (List.mem_cons_of_mem _ he)

end Dictionaries

namespace Form

variable {α κ : Type} [DecidableEq κ] {before : κ → κ → Bool} {key : String → Option κ}
  {nameOf : κ → String}

theorem dictionary_eq_ok_iff {r : Reader α} {depth : Nat} {t : Tree} {es : List (κ × α)} :
    Reader.dictionary before key r depth t = .ok es ↔
      ∃ d fs, depth = d + 1 ∧ t = .object fs .closed ∧
        Reader.entries before key r d [] fs = .ok es := by
  constructor
  · intro h
    unfold Reader.dictionary at h
    split at h
    · rename_i fs ending
      simp only [enter_eq_ok_iff, bind_eq_ok_iff] at h
      obtain ⟨d, hdepth, es', hes, _, hending, heq⟩ := h
      rw [← Except.ok.inj heq]
      exact ⟨d, fs, hdepth, by rw [Ending.check_eq_ok_iff.1 hending], hes⟩
    · cases h
  · rintro ⟨d, fs, rfl, rfl, hfs⟩
    show (Reader.entries before key r d [] fs >>= fun es ↦
      Ending.closed.check >>= fun _ ↦ pure es) = .ok es
    rw [hfs]
    rfl

theorem restores_entries {F : Form α} {depth : Nat} (h : F.Restores depth)
    (hbefore : KeyOrder before) (hkey : ∀ k, key (nameOf k) = some k)
    {fs : List (Option String × Tree)} {es : List (κ × α)}
    (hes : Reader.entries before key F.read depth [] fs = .ok es)
    (hfaithful : ∀ e ∈ es, ∀ n ∈ F.numbers e.2, n.Faithful) :
    Reader.entries before key F.read depth []
        (es.map fun e ↦ (some (nameOf e.1), F.tree e.2)) = .ok es ∧
      Tree.WholeFields (es.map fun e ↦ (some (nameOf e.1), F.tree e.2)) := by
  obtain ⟨hordered, hreads⟩ := hbefore.of_entries hes List.Pairwise.nil nofun
  have hentry : ∀ e ∈ es, F.read depth (F.tree e.2) = .ok e.2 ∧ (F.tree e.2).Whole := fun e he ↦
    h e.2 (hreads e he) (hfaithful e he)
  refine ⟨hbefore.entries_eq hkey hordered fun e he ↦ (hentry e he).1, ?_⟩
  rw [Tree.wholeFields_iff]
  intro f hf
  obtain ⟨e, he, rfl⟩ := List.mem_map.1 hf
  exact ⟨Option.some_ne_none _, (hentry e he).2⟩

omit [DecidableEq κ] in
theorem ofFields_map (es : List (κ × α)) (nameOf : κ → String) (tree : α → Tree) :
    Tree.ofFields (es.map fun e ↦ (nameOf e.1, some (tree e.2))) =
      .object (es.map fun e ↦ (some (nameOf e.1), tree e.2)) .closed := by
  rw [Tree.ofFields, List.filterMap_map, ← List.filterMap_eq_map]
  rfl

theorem restores_dictionary {F : Form α} {depth : Nat} (h : F.Restores depth)
    (hbefore : KeyOrder before) (hkey : ∀ k, key (nameOf k) = some k) :
    (dictionary before key nameOf F).Restores (depth + 1) := by
  rintro es ⟨t, ht⟩ hfaithful
  obtain ⟨d, fs, hdepth, -, hfs⟩ := dictionary_eq_ok_iff.1 ht
  cases hdepth
  obtain ⟨hback, hwhole⟩ := restores_entries h hbefore hkey hfs
    fun e he n hn ↦ hfaithful n (List.mem_flatMap.2 ⟨e, he, hn⟩)
  have htree : (dictionary before key nameOf F).tree es =
      .object (es.map fun e ↦ (some (nameOf e.1), F.tree e.2)) .closed :=
    ofFields_map es nameOf F.tree
  rw [htree]
  exact ⟨dictionary_eq_ok_iff.2 ⟨depth, _, rfl, rfl, hback⟩, rfl, hwhole⟩

theorem restoresFrom_dictionary {F : Form α} {k : Nat} (h : F.RestoresFrom k)
    (hbefore : KeyOrder before) (hkey : ∀ k, key (nameOf k) = some k) :
    (dictionary before key nameOf F).RestoresFrom (k + 1) := by
  intro depth hdepth
  obtain ⟨d, rfl⟩ := Nat.exists_eq_add_of_lt hdepth
  exact restores_dictionary (h (k + d) (Nat.le_add_right ..)) hbefore hkey

end Form

end Json

end CitedAnswers
