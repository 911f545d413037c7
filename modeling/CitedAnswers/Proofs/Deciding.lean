import CitedAnswers.Proofs.Layering
import Mathlib.Data.List.Induction
import Mathlib.Data.List.TakeWhile

/-!
# Which layer decides a setting

Layers are laid over one another before the result is laid over anything else. What that comes to
for a name in a section is `Layer.merge_cases`: the value of the last layer that sets it
(`Layer.Decides`), or nothing.

**A section may be taken back.** A layer that gives to a section as a whole a value that is no table
puts that value in the place of all that the layers before it say in the section
(`Layer.TakesBack`). If a later layer gives a table to the section again, only what is in that table
counts. A layer that sets a name decides it as long as no layer behind it takes back the section.

**Tables grow.** A table laid over a table leaves the other names of the one below, so the deciding
value itself need not be what stands there in the end. `Setting.Within` says how the two are
related: they are the same, or both are tables and none of the names is lost.

All that a layer can do to a value is said by `Layer.layOn_cases`; what several do is an induction
on it, from the last layer.
-/

namespace CitedAnswers

namespace Setting

variable {s t u v w : Setting}

/-! ### Values that agree, and tables that grow -/

/-- **A value stands within another**: it is the same one, or both are tables and the other has all
of its names. -/
def Within (u w : Setting) : Prop := u = w ∨ u.isTable ∧ w.isTable ∧ u.names ⊆ w.names

theorem Within.trans (huv : u.Within v) (hvw : v.Within w) : u.Within w := by
  rcases huv with rfl | ⟨hu, hv, huv⟩
  · exact hvw
  rcases hvw with rfl | ⟨-, hw, hvw⟩
  · exact .inr ⟨hu, hv, huv⟩
  · exact .inr ⟨hu, hw, fun _ h ↦ hvw (huv h)⟩

/-- A value that is more than a table without entries makes a value more than that. -/
theorem lay_ne_empty (h : u ≠ .table [] ∨ v ≠ .table []) : u.lay v ≠ .table [] := by
  by_cases hv : v.isTable
  case neg =>
    rw [lay_of_not_isTable u hv]
    rintro rfl
    exact hv rfl
  obtain ⟨es, rfl⟩ := isTable_iff.1 hv
  intro heq
  have hlay : u.layEntries es = .table [] := heq
  cases es with
  | nil => exact h.elim (absurd hlay) (absurd rfl)
  | cons e es =>
    have hmem : lower e.1 ∈ (u.layEntries (e :: es)).names :=
      mem_names_layEntries.2 (.inr ⟨e, List.mem_cons_self, rfl⟩)
    rw [hlay] at hmem
    cases hmem

/-- **Laying a value over both of two**, the one stays within the other. -/
theorem Within.lay (h : u.Within w) (v : Setting) : (u.lay v).Within (w.lay v) := by
  by_cases hv : v.isTable
  case neg =>
    rw [lay_of_not_isTable u hv, lay_of_not_isTable w hv]
    exact .inl rfl
  obtain ⟨es, rfl⟩ := isTable_iff.1 hv
  rcases h with rfl | ⟨hu, hw, hnames⟩
  · exact .inl rfl
  · refine .inr ⟨isTable_layEntries (.inl hu), isTable_layEntries (.inl hw), fun j hj ↦ ?_⟩
    exact mem_names_layEntries.2 ((mem_names_layEntries.1 hj).imp_left (@hnames j))

/-- A value laid over nothing stands within what it makes of any other value. -/
theorem within_lay (hv : v ≠ .table []) (s : Setting) : ((table []).lay v).Within (s.lay v) := by
  by_cases htable : v.isTable
  case neg =>
    rw [lay_of_not_isTable _ htable, lay_of_not_isTable _ htable]
    exact .inl rfl
  obtain ⟨es, rfl⟩ := isTable_iff.1 htable
  have hes : es ≠ [] := fun h ↦ hv (h ▸ rfl)
  refine .inr ⟨isTable_layEntries (.inr hes), isTable_layEntries (.inr hes), fun j hj ↦ ?_⟩
  exact mem_names_layEntries.2 (.inr ((mem_names_layEntries.1 hj).resolve_left List.not_mem_nil))

/-- A tidy value stands within what it makes of any other value. -/
theorem Tidy.within_lay (hv : v.Tidy) (hne : v ≠ .table []) (s : Setting) :
    v.Within (s.lay v) := by
  by_cases htable : v.isTable
  case neg => exact .inl (lay_of_not_isTable s htable).symm
  obtain ⟨es, rfl⟩ := isTable_iff.1 htable
  refine .inr ⟨rfl, isTable_layEntries (.inr fun h ↦ hne (h ▸ rfl)), fun j hj ↦ ?_⟩
  have hlower : Setting.lower j = j := hv.lower j hj
  obtain ⟨e, he, rfl⟩ := List.mem_map.1 hj
  exact mem_names_layEntries.2 (.inr ⟨e, he, hlower⟩)

/-- What a value that is more than a table without entries stands within is more than that, too. -/
theorem Within.ne_empty (h : v.Within w) (hne : v ≠ .table []) : w ≠ .table [] := by
  rintro rfl
  rcases h with rfl | ⟨htable, -, hnames⟩
  · exact hne rfl
  · obtain ⟨es, rfl⟩ := isTable_iff.1 htable
    have hnil : es.map Prod.fst = [] := List.subset_nil.1 hnames
    exact hne (congrArg table (List.map_eq_nil_iff.1 hnil))

/-- **Laying values over a value, and over nothing**: either they say nothing, or what they say by
themselves stands within what they make of the value. -/
theorem foldl_lay_cases (vs : List Setting) (s : Setting) :
    (vs.foldl lay (.table []) = .table [] ∧ vs.foldl lay s = s) ∨
      (vs.foldl lay (.table []) ≠ .table [] ∧
        (vs.foldl lay (.table [])).Within (vs.foldl lay s)) := by
  induction vs using List.reverseRecOn with
  | nil => exact .inl ⟨rfl, rfl⟩
  | append_singleton vs v ih =>
    rw [List.foldl_concat, List.foldl_concat]
    rcases ih with ⟨hnothing, hs⟩ | ⟨hne, hwithin⟩
    · rw [hnothing, hs]
      by_cases hv : v = .table []
      · exact .inl ⟨by rw [hv]; rfl, by rw [hv]; rfl⟩
      · exact .inr ⟨lay_ne_empty (.inr hv), within_lay hv s⟩
    · exact .inr ⟨lay_ne_empty (.inl hne), hwithin.lay v⟩

/-- Tables laid over a value come to what they give to a name, laid over what stands there. -/
theorem under_foldl_lay {vs : List Setting} (h : ∀ v ∈ vs, v.isTable) (s : Setting) (k : String) :
    (vs.foldl lay s).under k = (vs.flatMap (given k)).foldl lay (s.under k) := by
  induction vs generalizing s with
  | nil => rfl
  | cons v vs ih =>
    have hv : v.isTable := h v List.mem_cons_self
    rw [List.foldl_cons, ih (fun w hw ↦ h w (List.mem_cons_of_mem _ hw)), under_lay, if_pos hv,
      List.flatMap_cons, List.foldl_append]

/-- Of what was there before a value that is no table, nothing is left. -/
theorem foldl_lay_congr {vs : List Setting} (h : ∃ v ∈ vs, ¬ v.isTable) (s t : Setting) :
    vs.foldl lay s = vs.foldl lay t := by
  obtain ⟨v, hv, htable⟩ := h
  obtain ⟨before, after, rfl⟩ := List.append_of_mem hv
  simp only [List.foldl_append, List.foldl_cons, lay_of_not_isTable _ htable]

/-! ### Entries of layers -/

namespace Path

open Scanner

/-- Whether a key is a plain name: characters that may stand in a name, and at least one. -/
def isName (k : String) : Bool :=
  !k.toList.isEmpty && k.toList.all fun c ↦ c.isAlphanum || c == ' ' || c == '_' || c == '-'

/-- A plain name is read as a name to its end. -/
theorem name_toList {k : String} (h : isName k) : name k.toList = some (k, []) := by
  obtain ⟨hne, hall⟩ := (Bool.and_eq_true ..).mp h
  obtain ⟨c, cs, hk⟩ := List.exists_cons_of_ne_nil (by simpa using hne : k.toList ≠ [])
  rw [hk, List.all_eq_true, List.forall_mem_cons] at hall
  have hspan : spanSome (fun c ↦ c.isAlphanum || c == ' ' || c == '_' || c == '-') (c :: cs) =
      some (c :: cs, []) := by
    simp only [spanSome, charOf, span, bind, StateT.bind, if_pos hall.1, Option.bind_some,
      List.takeWhile_eq_self_iff.2 hall.2, List.dropWhile_eq_nil_iff.2 hall.2]
    rfl
  have hname : name (c :: cs) = some (String.ofList (c :: cs), []) := by
    show (spanSome _ (c :: cs)).bind _ = _
    rw [hspan]
    rfl
  rw [hk, hname, ← hk, String.ofList_toList]

/-- **A plain name is a path to itself.** -/
theorem ofKey_of_isName {k : String} (h : isName k) : ofKey k = ⟨[k], false⟩ := by
  have hmore : many step [] = some ([], []) := by
    rw [many, repeated]
    rfl
  have hscanner : scanner k.toList = some (⟨[k], false⟩, []) := by
    simp only [scanner, bind, StateT.bind, name_toList h, Option.bind_some, hmore]
    rfl
  rw [ofKey, readAll?, hscanner]
  rfl

/-- Every key leads somewhere. -/
theorem names_ne_nil (k : String) : (ofKey k).names ≠ [] := by
  rw [ofKey, Scanner.readAll?]
  cases h : scanner k.toList with
  | none => simp
  | some x =>
    obtain ⟨p, rest⟩ := x
    have hp : p.names ≠ [] := by
      simp only [scanner, bind, StateT.bind, Option.bind_eq_some_iff] at h
      obtain ⟨⟨first, _⟩, -, ⟨steps, _⟩, -, hp⟩ := h
      cases hp
      simp
    cases rest with
    | nil => exact hp
    | cons => simp

end Path

/-- What an entry says is a table: the value stands under one name at least. -/
theorem isTable_ofEntry (k : String) (v : Setting) : (ofEntry k v).isTable := by
  rw [ofEntry]
  cases h : (Path.ofKey (lower k)).names with
  | nil => exact absurd h (Path.names_ne_nil _)
  | cons n ns => simp [Path.enclose, isTable]

/-- A value under a plain name says just that. -/
theorem ofEntry_of_isName {k : String} (h : Path.isName (lower k)) (v : Setting) :
    ofEntry k v = .table [(lower k, v)] := by
  rw [ofEntry, Path.ofKey_of_isName h]
  rfl

end Setting

namespace Layer

open Setting

variable {l : Layer} {s : Setting} {section_ name : String} {v : Setting}

/-! ### What a layer says -/

/-- The values that a layer gives to a name, in their order. -/
def given (k : String) (l : Layer) : List Setting := l.flatMap fun e ↦ (ofEntry e.1 e.2).given k

/-- What a layer by itself says of a name in a section. -/
def view (l : Layer) (section_ name : String) : Setting :=
  ((l.layOn (.table [])).under section_).under name

/-- A layer sets a name in a section to a value. An empty table sets nothing. -/
def Sets (l : Layer) (section_ name : String) (v : Setting) : Prop :=
  l.view section_ name = v ∧ v ≠ .table []

/-- A layer takes back a section: it gives a value to it as a whole that is no table. -/
def TakesBack (l : Layer) (section_ : String) : Prop := ∃ v ∈ l.given section_, ¬ v.isTable

/-- A layer is laid entry by entry. -/
theorem layOn_eq (l : Layer) (s : Setting) :
    l.layOn s = (l.map fun e ↦ ofEntry e.1 e.2).foldl lay s := by
  rw [layOn, List.foldl_map]

theorem isTable_of_mem_map {t : Setting} (h : t ∈ l.map fun e ↦ ofEntry e.1 e.2) : t.isTable := by
  obtain ⟨e, -, rfl⟩ := List.mem_map.1 h
  exact isTable_ofEntry e.1 e.2

/-- A layer lays over what stands under a name what it gives to the name. -/
theorem under_layOn (l : Layer) (s : Setting) (k : String) :
    (l.layOn s).under k = (l.given k).foldl lay (s.under k) := by
  rw [layOn_eq, under_foldl_lay fun _ ↦ isTable_of_mem_map, List.flatMap_map]
  rfl

/-- A table that layers are laid over stays a table. -/
theorem isTable_layOn (hs : s.isTable) : (l.layOn s).isTable := by
  rw [layOn_eq]
  refine List.foldlRecOn (motive := fun (u : Setting) ↦ u.isTable) _ _ hs fun u hu t ht ↦ ?_
  obtain ⟨es, rfl⟩ := isTable_iff.1 (isTable_of_mem_map ht)
  exact isTable_layEntries (.inl hu)

/-- A tidy value that layers are laid over stays tidy. -/
theorem tidyTo_layOn {n : Nat} (hs : TidyTo n s) : TidyTo n (l.layOn s) := by
  rw [layOn_eq]
  exact List.foldlRecOn _ _ hs fun _ hu t _ ↦ hu.lay t

/-- The value that a layer sets is tidy: it has gone through laying. -/
theorem Sets.tidy (h : l.Sets section_ name v) : v.Tidy := by
  rw [← h.1]
  exact ((tidyTo_layOn (tidyTo_empty 2)).2 section_).2 name

/-- A layer sets nothing if it says nothing, or an empty table. -/
theorem forall_not_sets_iff : (∀ v, ¬ l.Sets section_ name v) ↔ l.view section_ name = .table [] :=
  ⟨fun h ↦ by_contra fun hne ↦ h _ ⟨rfl, hne⟩, fun h _ ⟨heq, hne⟩ ↦ hne (heq ▸ h)⟩

/-- **What one layer does to a value of a setting**: its own value comes to stand there, or, if it
has none, the value is as before or, with its section, taken back. -/
theorem layOn_cases (l : Layer) (s : Setting) (section_ name : String) :
    (∃ v, l.Sets section_ name v ∧ v.Within (((l.layOn s).under section_).under name)) ∨
      (∀ v, ¬ l.Sets section_ name v) ∧
        (l.TakesBack section_ ∧ ((l.layOn s).under section_).under name = .table [] ∨
          ¬ l.TakesBack section_ ∧
            ((l.layOn s).under section_).under name = (s.under section_).under name) := by
  by_cases hback : l.TakesBack section_
  · -- what comes of the section is the layer's own
    have heq : ((l.layOn s).under section_).under name = l.view section_ name := by
      rw [view, under_layOn, under_layOn, foldl_lay_congr hback]
    by_cases hnone : l.view section_ name = .table []
    · exact .inr ⟨forall_not_sets_iff.2 hnone, .inl ⟨hback, heq.trans hnone⟩⟩
    · exact .inl ⟨_, ⟨rfl, hnone⟩, .inl heq.symm⟩
  · have htables : ∀ t ∈ l.given section_, t.isTable := by simpa [TakesBack] using hback
    have hview : l.view section_ name =
        ((l.given section_).flatMap (Setting.given name)).foldl lay (.table []) := by
      rw [view, under_layOn, under_foldl_lay htables]
      rfl
    have hs : ((l.layOn s).under section_).under name =
        ((l.given section_).flatMap (Setting.given name)).foldl lay
          ((s.under section_).under name) := by
      rw [under_layOn, under_foldl_lay htables]
    rcases foldl_lay_cases ((l.given section_).flatMap (Setting.given name))
      ((s.under section_).under name) with ⟨hnone, hkept⟩ | ⟨hne, hwithin⟩
    · exact .inr ⟨forall_not_sets_iff.2 (hview.trans hnone), .inr ⟨hback, hs.trans hkept⟩⟩
    · exact .inl ⟨_, ⟨hview, hne⟩, hs ▸ hwithin⟩

/-! ### Layers over one another -/

/-- **The deciding value of a setting**: the last layer that sets it sets it to that, and no layer
after it takes back the section. -/
def Decides (ls : List Layer) (section_ name : String) (v : Setting) : Prop :=
  ∃ before l after, ls = before ++ l :: after ∧ l.Sets section_ name v ∧
    ∀ l' ∈ after, (∀ v', ¬ l'.Sets section_ name v') ∧ ¬ l'.TakesBack section_

/-- **One more layer** decides itself, or leaves the decision to those before it. -/
theorem decides_concat_iff {ls : List Layer} :
    Decides (ls ++ [l]) section_ name v ↔ l.Sets section_ name v ∨
      Decides ls section_ name v ∧ (∀ v', ¬ l.Sets section_ name v') ∧ ¬ l.TakesBack section_ := by
  constructor
  · rintro ⟨before, m, after, heq, hsets, hafter⟩
    rcases List.eq_nil_or_concat after with rfl | ⟨after, m', rfl⟩
    · obtain ⟨-, hm⟩ := List.append_inj' heq rfl
      cases hm
      exact .inl hsets
    · rw [List.concat_eq_append] at heq hafter
      rw [← List.cons_append, ← List.append_assoc] at heq
      obtain ⟨rfl, hm⟩ := List.append_inj' heq rfl
      cases hm
      exact .inr ⟨⟨before, m, after, rfl, hsets, fun l' h ↦ hafter l' (List.mem_append_left _ h)⟩,
        hafter l (List.mem_append_right _ List.mem_cons_self)⟩
  · rintro (hsets | ⟨⟨before, m, after, rfl, hsets, hafter⟩, hl⟩)
    · exact ⟨ls, l, [], rfl, hsets, fun _ h ↦ absurd h List.not_mem_nil⟩
    · refine ⟨before, m, after ++ [l], by simp, hsets, fun l' h ↦ ?_⟩
      rcases List.mem_append.1 h with h | h
      · exact hafter l' h
      · rw [List.mem_singleton.1 h]
        exact hl

/-- What decides was set by one of the layers. -/
theorem Decides.sets {ls : List Layer} (h : Decides ls section_ name v) :
    ∃ l ∈ ls, l.Sets section_ name v := by
  obtain ⟨before, l, after, rfl, hsets, -⟩ := h
  exact ⟨l, by simp, hsets⟩

/-- The last layer is laid over what those before it come to. -/
theorem merge_concat (ls : List Layer) (l : Layer) : merge (ls ++ [l]) = l.layOn (merge ls) :=
  List.foldl_concat ..

theorem isTable_merge (ls : List Layer) : (merge ls).isTable :=
  List.foldlRecOn (motive := fun (u : Setting) ↦ u.isTable) _ _ rfl fun _ hs _ _ ↦ isTable_layOn hs

theorem tidyTo_merge (n : Nat) (ls : List Layer) : TidyTo n (merge ls) :=
  List.foldlRecOn _ _ (tidyTo_empty n) fun _ hs _ _ ↦ tidyTo_layOn hs

/-- **What layers come to for a setting**: the deciding value stands within what they say of it,
and if there is none they say nothing. -/
theorem merge_cases (ls : List Layer) (section_ name : String) :
    (∃ v, Decides ls section_ name v ∧ v.Within (((merge ls).under section_).under name)) ∨
      (∀ v, ¬ Decides ls section_ name v) ∧
        ((merge ls).under section_).under name = .table [] := by
  induction ls using List.reverseRecOn with
  | nil =>
    refine .inr ⟨?_, rfl⟩
    rintro v ⟨before, l, after, heq, -⟩
    simp at heq
  | append_singleton ls l ih =>
    simp only [merge_concat, decides_concat_iff]
    rcases layOn_cases l (merge ls) section_ name with
      ⟨v, hsets, hwithin⟩ | ⟨hnone, ⟨hback, hempty⟩ | ⟨hkept, heq⟩⟩
    · exact .inl ⟨v, .inl hsets, hwithin⟩
    · refine .inr ⟨fun v h ↦ ?_, hempty⟩
      exact h.elim (hnone v) fun h ↦ h.2.2 hback
    · rw [heq]
      rcases ih with ⟨v, hdecides, hwithin⟩ | ⟨hundecided, hempty⟩
      · exact .inl ⟨v, .inr ⟨hdecides, hnone, hkept⟩, hwithin⟩
      · exact .inr ⟨fun v h ↦ h.elim (hnone v) fun h ↦ hundecided v h.1, hempty⟩

/-- Of the values in question one at most decides. -/
theorem Decides.eq {ls : List Layer} {w : Setting} (hv : Decides ls section_ name v)
    (hw : Decides ls section_ name w) : v = w := by
  induction ls using List.reverseRecOn with
  | nil =>
    obtain ⟨before, l, after, heq, -⟩ := hv
    simp at heq
  | append_singleton ls l ih =>
    rcases decides_concat_iff.1 hv with hsets | ⟨hv, hnone, -⟩
    · rcases decides_concat_iff.1 hw with hsets' | ⟨-, hnone, -⟩
      · exact hsets.1.symm.trans hsets'.1
      · exact absurd hsets (hnone v)
    · exact (decides_concat_iff.1 hw).elim (fun h ↦ absurd h (hnone w)) fun h ↦ ih hv h.1

end Layer

end CitedAnswers
