import CitedAnswers.Settings.Layer
import Mathlib.Data.List.Basic

/-!
# Layers over one another

What `Setting.lay` does, said without its recursion: `Setting.under_lay` gives what stands under a
name afterwards, and later modules use nothing else of it. Laying goes entry by entry, so a table
that has a name twice, or in either case, lays several values under it, one over the other;
`Setting.given` lists them.

**Nothing and an empty table are not told apart.** `Setting.under` is an empty table where there is
no value. Laying an empty table changes nothing, and no setting can be read off it, so the two do
the same everywhere; and the equation for `under` then has no case for a missing value.

**What has been laid is tidy.** It has no name twice and all names in lower case, at any depth
(`Setting.TidyTo.lay`), whatever the tables were like that were laid. Of a tidy table one value at
most is given to a name, which is why a merged value may be laid over another section by section
and name by name (`Setting.Tidy.under_lay`).
-/

namespace CitedAnswers

namespace Setting

/-! ### Names in lower case -/

/-- Whatever changes in lower case changes into a small letter. -/
theorem toLower_cases (c : Char) :
    c.toLower = c ∨ 97 ≤ c.toLower.val.toNat ∧ c.toLower.val.toNat ≤ 122 := by
  by_cases h : c.val ≥ 'A'.val ∧ c.val ≤ 'Z'.val
  · have h65 : 65 ≤ c.val.toNat := h.1
    have h90 : c.val.toNat ≤ 90 := h.2
    have hval : c.toLower.val = c.val + ('a'.val - 'A'.val) := congrArg Char.val (dif_pos h)
    have hshift : ('a'.val - 'A'.val).toNat = 32 := by decide
    rw [hval, UInt32.toNat_add]
    omega
  · exact .inl (dif_neg h)

theorem toLower_of_lt {c : Char} (h : 90 < c.val.toNat) : c.toLower = c :=
  dif_neg fun hcapital ↦ absurd (show c.val.toNat ≤ 90 from hcapital.2) (Nat.not_le.2 h)

theorem lowerChar_lowerChar (c : Char) : lowerChar (lowerChar c) = lowerChar c := by
  by_cases hk : c = '\u212a'
  · rw [hk]
    decide
  have hc : lowerChar c = c.toLower := if_neg hk
  rw [hc]
  rcases toLower_cases c with h | ⟨hlow, hhigh⟩
  · rw [h, hc, h]
  · have hne : c.toLower ≠ '\u212a' := by
      intro heq
      rw [heq] at hhigh
      revert hhigh
      decide
    rw [lowerChar, if_neg hne, toLower_of_lt (by omega)]

/-- A name in lower case is in lower case. -/
@[simp]
theorem lower_lower (k : String) : lower (lower k) = lower k := by
  rw [lower, lower, String.toList_ofList, List.map_map]
  congr 2
  exact funext lowerChar_lowerChar

/-! ### What stands under a name -/

/-- Whether a value is a table. -/
def isTable : Setting → Bool
  | table _ => true
  | _ => false

/-- What stands under a name. Nothing is the same as a table without entries: neither is a value of
a setting, and laying it over a value changes nothing. -/
def under (s : Setting) (k : String) : Setting := (s.get? k).getD (.table [])

/-- The values that a value gives to a name, in either case of it and in their order. -/
def given (k : String) (s : Setting) : List Setting :=
  s.entries.filterMap fun e ↦ if lower e.1 = k then some e.2 else none

/-- The names in a value. -/
def names (s : Setting) : List String := s.entries.map Prod.fst

theorem isTable_iff {s : Setting} : s.isTable ↔ ∃ es, s = table es := by
  cases s <;> simp [isTable]

theorem entries_of_not_isTable {s : Setting} (h : ¬ s.isTable) : s.entries = [] := by
  cases s <;> first | rfl | exact absurd rfl h

/-- Nothing stands under a name in what is no table. -/
theorem under_of_not_isTable {s : Setting} (h : ¬ s.isTable) (k : String) :
    s.under k = .table [] := by
  rw [under, get?, entries_of_not_isTable h]
  rfl

/-- What is no table takes the place of what it is laid over. -/
theorem lay_of_not_isTable (s : Setting) {t : Setting} (h : ¬ t.isTable) : s.lay t = t := by
  cases t <;> first | rfl | exact absurd rfl h

@[simp]
theorem lay_empty (s : Setting) : s.lay (.table []) = s := rfl

theorem lookup_put (k j : String) (v : Setting) (es : List (String × Setting)) :
    (put k v es).lookup j = if j = k then some v else es.lookup j := by
  induction es with
  | nil =>
    by_cases h : j = k
    · simp [put, h]
    · simp [put, List.lookup_cons, beq_eq_false_iff_ne.2 h, h]
  | cons e es ih =>
    obtain ⟨l, w⟩ := e
    rw [put]
    by_cases hkl : k = l
    · subst hkl
      by_cases h : j = k
      · simp [h]
      · simp [List.lookup_cons, beq_eq_false_iff_ne.2 h, h]
    · rw [if_neg hkl, List.lookup_cons, List.lookup_cons, ih]
      by_cases h : j = l
      · subst h
        simp [Ne.symm hkl]
      · rw [beq_eq_false_iff_ne.2 h]

/-- An entry that is put into a table changes what stands under its own name only. -/
theorem under_put (k j : String) (v : Setting) (es : List (String × Setting)) :
    (table (put k v es)).under j = if j = k then v else (table es).under j := by
  rw [under, get?, entries, lookup_put]
  split
  · rfl
  · rfl

/-- **Laying a table over a value** lays what it gives to a name over what stands there. -/
theorem under_layEntries (s : Setting) (es : List (String × Setting)) (k : String) :
    (s.layEntries es).under k = ((table es).given k).foldl lay (s.under k) := by
  induction es generalizing s with
  | nil => rfl
  | cons e es ih =>
    obtain ⟨l, v⟩ := e
    have hunder : (table (put (lower l) (lay (s.under (lower l)) v) s.entries)).under k =
        if k = lower l then lay (s.under k) v else s.under k := by
      rw [under_put]
      split
      case isTrue h => rw [h]
      case isFalse => rfl
    rw [layEntries]
    show (layEntries (table (put (lower l) (lay (s.under (lower l)) v) s.entries)) es).under k = _
    rw [ih, hunder]
    by_cases h : k = lower l
    · simp [given, entries, h]
    · simp [given, entries, h, Ne.symm h]

/-- **Laying a value over a value**, name by name. -/
theorem under_lay (s t : Setting) (k : String) :
    (s.lay t).under k = if t.isTable then (t.given k).foldl lay (s.under k) else .table [] := by
  split
  case isTrue h =>
    obtain ⟨es, rfl⟩ := isTable_iff.1 h
    exact under_layEntries s es k
  case isFalse h => rw [lay_of_not_isTable s h, under_of_not_isTable h]

/-! ### Names -/

theorem names_put (k : String) (v : Setting) (es : List (String × Setting)) :
    (table (put k v es)).names =
      if k ∈ (table es).names then (table es).names else (table es).names ++ [k] := by
  induction es with
  | nil => rfl
  | cons e es ih =>
    obtain ⟨l, w⟩ := e
    rw [put]
    by_cases hkl : k = l
    · simp [names, entries, hkl]
    · have hnames : (table ((l, w) :: put k v es)).names = l :: (table (put k v es)).names := rfl
      have hnames' : (table ((l, w) :: es)).names = l :: (table es).names := rfl
      rw [if_neg hkl, hnames, hnames', ih]
      by_cases hk : k ∈ (table es).names <;> simp [hkl, hk]

/-- Names are added by entries, and there are no others than before. -/
theorem mem_names_layEntries {s : Setting} {es : List (String × Setting)} {j : String} :
    j ∈ (s.layEntries es).names ↔ j ∈ s.names ∨ ∃ e ∈ es, lower e.1 = j := by
  induction es generalizing s with
  | nil => simp [layEntries]
  | cons e es ih =>
    obtain ⟨l, v⟩ := e
    rw [layEntries, ih, names_put]
    have hs : (table s.entries).names = s.names := rfl
    by_cases hl : lower l ∈ s.names
    · rw [hs, if_pos hl]
      constructor
      · rintro (h | ⟨e, he, rfl⟩)
        · exact .inl h
        · exact .inr ⟨e, List.mem_cons_of_mem _ he, rfl⟩
      · rintro (h | ⟨e, he, rfl⟩)
        · exact .inl h
        · rcases List.mem_cons.1 he with rfl | he
          · exact .inl hl
          · exact .inr ⟨e, he, rfl⟩
    · rw [hs, if_neg hl]
      simp [or_assoc, eq_comm]

/-- Laying any entry over a value makes a table of it, and a table stays one without. -/
theorem isTable_layEntries {s : Setting} {es : List (String × Setting)}
    (h : s.isTable ∨ es ≠ []) : (s.layEntries es).isTable := by
  induction es generalizing s with
  | nil => exact h.elim id (absurd rfl)
  | cons e es ih =>
    rw [layEntries]
    exact ih (.inl rfl)

/-- **A tidy value** has no name twice and all of them in lower case. -/
structure Tidy (s : Setting) : Prop where
  nodup : s.names.Nodup
  lower : ∀ k ∈ s.names, Setting.lower k = k

variable {s t : Setting}

theorem tidy_empty : (table []).Tidy := ⟨List.nodup_nil, fun _ h ↦ absurd h List.not_mem_nil⟩

/-- **A tidy value stays tidy**, whatever is laid over it. -/
theorem Tidy.lay (hs : s.Tidy) (t : Setting) : (s.lay t).Tidy := by
  by_cases ht : t.isTable
  case neg =>
    have hnames : t.names = [] := by rw [names, entries_of_not_isTable ht, List.map_nil]
    rw [lay_of_not_isTable s ht]
    exact ⟨hnames ▸ List.nodup_nil, fun k hk ↦ absurd (hnames ▸ hk) List.not_mem_nil⟩
  obtain ⟨es, rfl⟩ := isTable_iff.1 ht
  show (s.layEntries es).Tidy
  clear ht
  induction es generalizing s with
  | nil => exact hs
  | cons e es ih =>
    obtain ⟨l, v⟩ := e
    rw [layEntries]
    refine ih ?_
    have hput := names_put (Setting.lower l)
      (Setting.lay ((s.get? (Setting.lower l)).getD (.table [])) v) s.entries
    have hs' : (table s.entries).names = s.names := rfl
    rw [hs'] at hput
    by_cases hl : Setting.lower l ∈ s.names
    · rw [if_pos hl] at hput
      exact ⟨hput ▸ hs.nodup, hput ▸ hs.lower⟩
    · rw [if_neg hl] at hput
      refine ⟨hput ▸ ?_, hput ▸ ?_⟩
      · refine List.nodup_append.2 ⟨hs.nodup, by simp, ?_⟩
        rintro j hj _ hmem rfl
        exact hl (List.mem_singleton.1 hmem ▸ hj)
      · intro k hk
        rcases List.mem_append.1 hk with hk | hk
        · exact hs.lower k hk
        · rw [List.mem_singleton.1 hk, lower_lower]

/-- A value is tidy down to a depth: so is what stands under names, under names in them, and so
on. -/
def TidyTo : Nat → Setting → Prop
  | 0, s => s.Tidy
  | n + 1, s => s.Tidy ∧ ∀ k, TidyTo n (s.under k)

theorem tidyTo_empty (n : Nat) : TidyTo n (table []) := by
  induction n with
  | zero => exact tidy_empty
  | succ n ih => exact ⟨tidy_empty, fun _ ↦ ih⟩

/-- **Laying keeps a value tidy**, to any depth and whatever is laid over it. -/
theorem TidyTo.lay {n : Nat} (hs : TidyTo n s) (t : Setting) : TidyTo n (s.lay t) := by
  induction n generalizing s t with
  | zero => exact Tidy.lay hs t
  | succ n ih =>
    refine ⟨hs.1.lay t, fun k ↦ ?_⟩
    rw [under_lay]
    split
    case isFalse => exact tidyTo_empty n
    case isTrue =>
      -- the values given to the name are laid over what stands there, each by the hypothesis
      exact List.foldlRecOn _ _ (hs.2 k) fun _ h v _ ↦ ih h v

/-- A tidy value gives one value to a name at most, the one that stands there. -/
theorem Tidy.given_eq (ht : t.Tidy) (k : String) : t.given k = (t.get? k).toList := by
  obtain ⟨hnodup, hlower⟩ := ht
  rw [names] at hnodup hlower
  rw [given, get?]
  generalize t.entries = es at hnodup hlower
  induction es with
  | nil => rfl
  | cons e es ih =>
    obtain ⟨l, v⟩ := e
    rw [List.map_cons, List.nodup_cons] at hnodup
    have hl : Setting.lower l = l := hlower l (by simp)
    have hmore := ih hnodup.2 fun j hj ↦ hlower j (by simp [hj])
    by_cases h : l = k
    · subst h
      have hnone : es.lookup l = none := by
        rw [List.lookup_eq_none_iff]
        intro e he
        exact bne_iff_ne.2 fun heq ↦ hnodup.1 (List.mem_map.2 ⟨e, he, heq.symm⟩)
      rw [hnone] at hmore
      simp [hl, hmore]
    · simp [List.lookup_cons, hl, h, beq_eq_false_iff_ne.2 (Ne.symm h), hmore]

/-- **Laying a tidy table over a value** lays what stands under a name over what stands there. -/
theorem Tidy.under_lay (ht : t.Tidy) (htable : t.isTable) (s : Setting) (k : String) :
    (s.lay t).under k = (s.under k).lay (t.under k) := by
  rw [Setting.under_lay, if_pos htable, ht.given_eq, under, under]
  cases t.get? k <;> rfl

end Setting

end CitedAnswers
