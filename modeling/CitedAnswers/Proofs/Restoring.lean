import CitedAnswers.Proofs.Forms
import Mathlib.Data.List.Nodup
import Mathlib.Data.List.Pairwise

/-!
# JSON values and records are restored

The two forms that are left are those of JSON values and of records.

Values nest, but what a container holds is read one level down, so the induction is on the depth.
At each depth a value is a scalar or an array or dictionary of values of the depth below
(`value_array`, `value_object`), and those are restored as any arrays and dictionaries are
(`restoresFrom_value`).

A record is given by its `Member`s. Each of them is shown when the record is written, or left out
where its content is what a record starts with. A record may be read from an object or from an
array, with some members missing; all that matters of this is that every content was read, or is
what it was at the start (`Form.Laid.reads_get`). What is written is always an object, and reading
it goes from member to member (`Form.Laid.Reached`). So a record is restored if its members are
(`Form.Laid.restoresFrom`).
-/

namespace CitedAnswers.Json

/-! ### JSON values -/

theorem keyOrder_keyBefore : KeyOrder keyBefore where
  irrefl k := decide_eq_false (lt_irrefl k)
  trans _ _ _ hjk hkl := decide_eq_true (lt_trans (of_decide_eq_true hjk) (of_decide_eq_true hkl))
  total _ _ hne hkl :=
    decide_eq_true ((lt_or_gt_of_ne hne).resolve_left (of_decide_eq_false hkl))

mutual

/-- The floating-point numbers in a JSON value. -/
def Value.numbers : Value → List Floating
  | .float x => [.double x]
  | .array items => numbersOfItems items
  | .object fields => numbersOfFields fields
  | _ => []

/-- The floating-point numbers in the items of an array. -/
def numbersOfItems : List Value → List Floating
  | [] => []
  | v :: vs => v.numbers ++ numbersOfItems vs

/-- The floating-point numbers in the fields of a dictionary. -/
def numbersOfFields : List (String × Value) → List Floating
  | [] => []
  | (_, v) :: fs => v.numbers ++ numbersOfFields fs

end

/-- JSON values. -/
def Form.value : Form Value := ⟨Reader.value, Value.toTree, Value.numbers⟩

/-- Metadata, and the fields of a JSON value. -/
def Form.fields : Form (List (String × Value)) := .dictionary keyBefore some id .value

/-! The recursions on values are those of arrays and dictionaries of values. -/

theorem numbers_array (vs : List Value) :
    Form.value.numbers (.array vs) = Form.value.list.numbers vs := by
  show numbersOfItems vs = vs.flatMap Value.numbers
  induction vs with
  | nil => rfl
  | cons v vs ih => rw [numbersOfItems, ih, List.flatMap_cons]

theorem numbers_object (fs : List (String × Value)) :
    Form.value.numbers (.object fs) = Form.fields.numbers fs := by
  show numbersOfFields fs = fs.flatMap fun e ↦ e.2.numbers
  induction fs with
  | nil => rfl
  | cons f fs ih => rw [numbersOfFields, ih, List.flatMap_cons]

theorem toTree_array (vs : List Value) : (Value.array vs).toTree = Form.value.list.tree vs := by
  have hitems : itemsToTrees vs = vs.map Value.toTree := by
    induction vs with
    | nil => rfl
    | cons v vs ih => rw [itemsToTrees, ih, List.map_cons]
  exact congrArg (Tree.array · .closed) hitems

theorem toTree_object (fs : List (String × Value)) :
    (Value.object fs).toTree = Form.fields.tree fs := by
  have hfields : fieldsToTrees fs = fs.map fun e ↦ (some e.1, e.2.toTree) := by
    induction fs with
    | nil => rfl
    | cons f fs ih => rw [fieldsToTrees, ih, List.map_cons]
  exact (congrArg (Tree.object · .closed) hfields).trans (Form.ofFields_map fs id Value.toTree).symm

theorem value_array (depth : Nat) (ts : List Tree) (ending : Ending) :
    Reader.value depth (.array ts ending) =
      (Form.value.list.read depth (.array ts ending)).map Value.array := by
  have hitems (d : Nat) : itemsToValues d ts = Reader.items Reader.value d ts := by
    induction ts with
    | nil => rfl
    | cons t ts ih => rw [itemsToValues, ih]; rfl
  rcases depth with - | d
  · rfl
  · show (itemsToValues d ts >>= fun vs ↦ ending.check >>= fun _ ↦ pure (Value.array vs)) =
      (Reader.items Reader.value d ts >>= fun vs ↦ ending.check >>= fun _ ↦ pure vs).map
        Value.array
    rw [hitems]
    rcases Reader.items Reader.value d ts with f | vs
    · rfl
    · rcases ending with - | b <;> rfl

theorem value_object (depth : Nat) (fs : List (Option String × Tree)) (ending : Ending) :
    Reader.value depth (.object fs ending) =
      (Form.fields.read depth (.object fs ending)).map Value.object := by
  have hentries (d : Nat) (es : List (String × Value)) : fieldsToDictionary d es fs =
      Reader.entries keyBefore some Reader.value d es fs := by
    induction fs generalizing es with
    | nil => rfl
    | cons f fs ih =>
      obtain ⟨_ | k, t⟩ := f
      · rfl
      · rw [fieldsToDictionary, Reader.entries]
        simp only [ih]
        rfl
  rcases depth with - | d
  · rfl
  · show (fieldsToDictionary d [] fs >>= fun es ↦
        ending.check >>= fun _ ↦ pure (Value.object es)) =
      (Reader.entries keyBefore some Reader.value d [] fs >>= fun es ↦
        ending.check >>= fun _ ↦ pure es).map Value.object
    rw [hentries]
    rcases Reader.entries keyBefore some Reader.value d [] fs with f | es
    · rfl
    · rcases ending with - | b <;> rfl

/-- **JSON values are restored at every depth.** What a container holds is read one level down. -/
theorem restoresFrom_value : Form.value.RestoresFrom 0 := by
  intro depth _
  induction depth using Nat.strong_induction_on with
  | _ depth ih =>
    rintro v ⟨t, ht⟩ hfaithful
    have hread : Reader.value depth t = .ok v := ht
    rcases t with - | b | n | (- | s) | ⟨ts, ending⟩ | ⟨fs, ending⟩ | b
    · cases hread
      exact ⟨rfl, trivial⟩
    · cases hread
      exact ⟨rfl, trivial⟩
    · have hnumeral : Value.ofNumeral n = .ok v := hread
      rw [Value.ofNumeral] at hnumeral
      rcases hinteger : n.integer? with - | i <;> rw [hinteger] at hnumeral
      · rcases hfloat : n.float? with - | x <;> rw [hfloat] at hnumeral
        · cases hnumeral
        · cases hnumeral
          exact (hfaithful (.double x) (List.mem_singleton_self _)).double
            (Numeral.isFinite_of_float? hfloat) depth
      · cases hnumeral
        refine ⟨?_, Numeral.proper_ofInt i⟩
        show Value.ofNumeral (.ofInt i) = .ok (.integer i)
        rw [Value.ofNumeral, Numeral.integer?_ofInt (Numeral.range_of_integer? hinteger)]
    · cases hread
    · cases hread
      exact ⟨rfl, Option.some_ne_none s⟩
    · rw [value_array] at hread
      obtain ⟨vs, hvs, rfl⟩ := map_eq_ok_iff.1 hread
      rcases depth with - | d
      · cases hvs
      · obtain ⟨hback, hwhole⟩ := Form.restores_list (ih d (Nat.lt_succ_self d) (Nat.zero_le d)) vs
          ⟨_, hvs⟩ (fun n hn ↦ hfaithful n (by rw [numbers_array]; exact hn))
        show Reader.value (d + 1) (Value.array vs).toTree = _ ∧ (Value.array vs).toTree.Whole
        rw [toTree_array]
        exact ⟨(value_array ..).trans (map_eq_ok_iff.2 ⟨vs, hback, rfl⟩), hwhole⟩
    · rw [value_object] at hread
      obtain ⟨es, hes, rfl⟩ := map_eq_ok_iff.1 hread
      rcases depth with - | d
      · cases hes
      · obtain ⟨hback, hwhole⟩ := Form.restores_dictionary
          (ih d (Nat.lt_succ_self d) (Nat.zero_le d)) keyOrder_keyBefore (fun _ ↦ rfl) es
          ⟨_, hes⟩ (fun n hn ↦ hfaithful n (by rw [numbers_object]; exact hn))
        show Reader.value (d + 1) (Value.object es).toTree = _ ∧ (Value.object es).toTree.Whole
        rw [toTree_object]
        exact ⟨(value_object ..).trans (map_eq_ok_iff.2 ⟨es, hback, rfl⟩), hwhole⟩
    · cases hread

/-! ### Records -/

/-- **A member of a record**: how its content is read and written, where it is in a record, and what
it is before it is read. It is left out only where it is that anyway and where it may be missing. -/
structure Member (α : Type) where
  name : String
  absence : Absence
  {Content : Type}
  form : Form Content
  get : α → Content
  set : Content → α → α
  initial : Content
  shown : Content → Option Tree
  get_set : ∀ c a, get (set c a) = c
  shown_or : ∀ c, shown c = some (form.tree c) ∨
    shown c = none ∧ c = initial ∧ absence ≠ .required

namespace Member

variable {α β : Type}

/-- A member that is always written. -/
def always (name : String) (absence : Absence) (form : Form β) (get : α → β) (set : β → α → α)
    (initial : β) (h : ∀ c a, get (set c a) = c) : Member α where
  name := name
  absence := absence
  form := form
  get := get
  set := set
  initial := initial
  shown c := some (form.tree c)
  get_set := h
  shown_or _ := .inl rfl

/-- A member that is written if it is present. -/
def optional (name : String) (form : Form β) (get : α → Option β) (set : Option β → α → α)
    (h : ∀ c a, get (set c a) = c) : Member α where
  name := name
  absence := .defaulted
  form := form.option
  get := get
  set := set
  initial := none
  shown c := c.map form.tree
  get_set := h
  shown_or c := by
    rcases c with - | b
    · exact .inr ⟨rfl, rfl, nofun⟩
    · exact .inl rfl

/-- The slot of the member. -/
def slot (f : Member α) : Slot α := .of f.name f.absence f.form.read f.set

/-- The member as it is written, if it is. -/
def written (a : α) (f : Member α) : Option (Option String × Tree) :=
  (f.shown (f.get a)).map fun t ↦ (some f.name, t)

/-- Storing the content of one of two members leaves that of the other. -/
def Apart (f g : Member α) : Prop :=
  (∀ c a, g.get (f.set c a) = g.get a) ∧ ∀ c a, f.get (g.set c a) = f.get a

/-- Wherever at least so many containers may be entered, the contents of the member are restored,
and what it is before it is read can be read. -/
structure RestoredFrom (f : Member α) (k : Nat) : Prop where
  form : f.form.RestoresFrom k
  initial : ∀ depth, k ≤ depth → f.form.read.Reads depth f.initial

theorem restoredFrom_optional {name : String} {form : Form β} {get : α → Option β}
    {set : Option β → α → α} {h : ∀ c a, get (set c a) = c} {k : Nat} (hform : form.RestoresFrom k)
    (hnull : form.RefusesNull) : (optional name form get set h).RestoredFrom k :=
  ⟨Form.restoresFrom_option hnull hform, fun _ _ ↦ ⟨.null, rfl⟩⟩

theorem slot_read_eq_ok_iff {f : Member α} {depth : Nat} {t : Tree} {set : α → α} :
    f.slot.read depth t = .ok set ↔ ∃ c, f.form.read depth t = .ok c ∧ f.set c = set :=
  map_eq_ok_iff

end Member

/-- **A form of a record type**, laid out in members: they are the slots of the record, what is
written consists of them, and together they are the whole record. -/
structure Form.Laid {α : Type} (F : Form α) (r : Record α) (members : List (Member α)) : Prop where
  read : F.read = r.read
  slots : r.slots = members.map Member.slot
  tree : ∀ a, F.tree a = .object (members.filterMap (Member.written a)) .closed
  numbers : ∀ a, ∀ f ∈ members, f.form.numbers (f.get a) ⊆ F.numbers a
  initial : ∀ f ∈ members, f.get r.blank = f.initial
  nodup : (members.map Member.name).Nodup
  apart : members.Pairwise Member.Apart
  ext : ∀ a b, (∀ f ∈ members, f.get a = f.get b) → a = b

namespace Record

variable {α : Type} {r : Record α} {depth : Nat} {ending : Ending} {a b : α} {I : α → Prop}

theorem readFields_induction {fs : List (Option String × Tree)} {seen : List String}
    (h : r.readFields depth ending a seen fs = .ok b) (ha : I a)
    (hset : ∀ s ∈ r.slots, ∀ t set, s.read depth t = .ok set → ∀ c, I c → I (set c)) : I b := by
  induction fs generalizing a seen with
  | nil =>
    rw [readFields] at h
    obtain ⟨_, -, h⟩ := bind_eq_ok_iff.1 h
    split at h
    · rwa [← Except.ok.inj h]
    · cases h
  | cons f fs ih =>
    obtain ⟨_ | k, t⟩ := f
    · cases h
    · rw [readFields] at h
      split at h
      · obtain ⟨_, -, h⟩ := bind_eq_ok_iff.1 h
        exact ih h ha
      · rename_i s hs
        split at h
        · cases h
        · obtain ⟨set, hread, h⟩ := bind_eq_ok_iff.1 h
          exact ih h (hset s (List.mem_of_find?_eq_some hs) t set hread a ha)

theorem readItems_induction {ss : List (Slot α)} {ts : List Tree}
    (h : readItems depth ending a ss ts = .ok b) (ha : I a)
    (hset : ∀ s ∈ ss, ∀ t set, s.read depth t = .ok set → ∀ c, I c → I (set c)) : I b := by
  induction ss generalizing a ts with
  | nil =>
    rcases ts with - | ⟨t, ts⟩
    · rw [readItems] at h
      obtain ⟨_, -, h⟩ := bind_eq_ok_iff.1 h
      rwa [← Except.ok.inj h]
    · cases h
  | cons s ss ih =>
    have hrest := fun u hu ↦ hset u (List.mem_cons_of_mem s hu)
    rcases ts with - | ⟨t, ts⟩
    · rw [readItems] at h
      obtain ⟨_, -, h⟩ := bind_eq_ok_iff.1 h
      split at h
      · exact ih h ha hrest
      · cases h
    · rw [readItems] at h
      obtain ⟨set, hread, h⟩ := bind_eq_ok_iff.1 h
      exact ih h (hset s (List.mem_cons_self ..) t set hread a ha) hrest

/-- **What reading a record comes to.** Whatever holds of the record before anything is read, and is
kept when a slot is filled, holds of the record that is read, from either form. -/
theorem read_induction {t : Tree} (h : r.read depth t = .ok a) :
    ∃ d, depth = d + 1 ∧ ∀ I : α → Prop, I r.blank →
      (∀ s ∈ r.slots, ∀ t set, s.read d t = .ok set → ∀ c, I c → I (set c)) → I a := by
  unfold read at h
  split at h
  · obtain ⟨d, hdepth, h⟩ := enter_eq_ok_iff.1 h
    exact ⟨d, hdepth, fun I hblank hset ↦ readFields_induction h hblank hset⟩
  · obtain ⟨d, hdepth, h⟩ := enter_eq_ok_iff.1 h
    exact ⟨d, hdepth, fun I hblank hset ↦ readItems_induction h hblank hset⟩
  · cases h

end Record

namespace Form.Laid

variable {α : Type} {F : Form α} {r : Record α} {members : List (Member α)}

/-- Storing the content of a member leaves that of every other one. -/
theorem get_set_of_ne (h : F.Laid r members) {f g : Member α} (hf : f ∈ members) (hg : g ∈ members)
    (hne : f ≠ g) (c : f.Content) (a : α) : g.get (f.set c a) = g.get a := by
  have hsymm : Std.Symm (Member.Apart (α := α)) := ⟨fun f g hfg ↦ ⟨hfg.2, hfg.1⟩⟩
  exact (h.apart.forall hf hg hne).1 c a

/-- **The contents of a record that is read** are each read, or were there before. -/
theorem reads_get (h : F.Laid r members) {depth : Nat} {a : α} (ha : F.read.Reads depth a) :
    ∃ d, depth = d + 1 ∧
      ∀ f ∈ members, f.form.read.Reads d (f.get a) ∨ f.get a = f.initial := by
  obtain ⟨t, ht⟩ := ha
  rw [h.read] at ht
  obtain ⟨d, hdepth, hinduction⟩ := Record.read_induction ht
  refine ⟨d, hdepth, hinduction (fun c ↦ ∀ f ∈ members, f.form.read.Reads d (f.get c) ∨
    f.get c = f.initial) (fun f hf ↦ .inr (h.initial f hf)) ?_⟩
  intro s hs t set hread c hc g hg
  rw [h.slots] at hs
  obtain ⟨f, hf, rfl⟩ := List.mem_map.1 hs
  obtain ⟨b, hb, rfl⟩ := Member.slot_read_eq_ok_iff.1 hread
  by_cases hfg : f = g
  · subst hfg
    rw [f.get_set]
    exact .inl ⟨t, hb⟩
  · rw [h.get_set_of_ne hf hg hfg]
    exact hc g hg

/-- No two members have one name. -/
theorem name_ne (h : F.Laid r members) {f : Member α} {before after : List (Member α)}
    (hmembers : members = before ++ f :: after) :
    ∀ g ∈ before ++ after, g.name ≠ f.name := by
  have hnodup := h.nodup
  rw [hmembers, List.map_append, List.map_cons, List.nodup_middle, ← List.map_append,
    List.nodup_cons] at hnodup
  exact fun g hg heq ↦ hnodup.1 (heq ▸ List.mem_map_of_mem hg)

theorem find?_slot (h : F.Laid r members) {f : Member α} (hf : f ∈ members) :
    r.slots.find? (fun s ↦ s.name == f.name) = some f.slot := by
  obtain ⟨before, after, hmembers⟩ := List.append_of_mem hf
  rw [h.slots, List.find?_map, Option.map_eq_some_iff]
  refine ⟨f, List.find?_eq_some_iff_append.2 ⟨beq_self_eq_true f.name, before, after, hmembers, ?_⟩,
    rfl⟩
  intro g hg
  have hne : g.name ≠ f.name := h.name_ne hmembers g (List.mem_append_left _ hg)
  show (!(g.name == f.name)) = true
  rw [beq_eq_false_iff_ne.2 hne]
  rfl

/-- How far reading what is written of `a` has come. In the members before, the record `b` that is
read has the contents of `a`; the members after are as they were. -/
structure Reached (members before after : List (Member α)) (a b : α) (seen : List String) :
    Prop where
  members_eq : members = before ++ after
  get_before : ∀ f ∈ before, f.get b = f.get a
  get_after : ∀ f ∈ after, f.get b = f.initial
  mem_names : ∀ k ∈ seen, k ∈ before.map Member.name
  required : ∀ f ∈ before, f.absence = .required → f.name ∈ seen

section Reading

variable {depth : Nat} {a b : α} {f : Member α} {before after : List (Member α)}
  {seen : List String}

theorem Reached.mem (hreached : Reached members before (f :: after) a b seen) : f ∈ members := by
  rw [hreached.members_eq]
  exact List.mem_append_right _ (List.mem_cons_self ..)

theorem Reached.next (hreached : Reached members before (f :: after) a b seen) :
    members = (before ++ [f]) ++ after := by
  rw [hreached.members_eq, List.append_assoc]
  rfl

/-- The next member was not seen. -/
theorem Reached.not_mem (h : F.Laid r members)
    (hreached : Reached members before (f :: after) a b seen) : f.name ∉ seen := by
  intro hmem
  obtain ⟨g, hg, hname⟩ := List.mem_map.1 (hreached.mem_names _ hmem)
  exact h.name_ne hreached.members_eq g (List.mem_append_left _ hg) hname

/-- The next member is read. -/
theorem Reached.read (h : F.Laid r members)
    (hreached : Reached members before (f :: after) a b seen) :
    Reached members (before ++ [f]) after a (f.set (f.get a) b) (f.name :: seen) := by
  have hkept : ∀ g ∈ before ++ after, g.get (f.set (f.get a) b) = g.get b := fun g hg ↦ by
    have hmem : g ∈ members := by
      rw [hreached.members_eq]
      exact (List.mem_append.1 hg).elim (List.mem_append_left _)
        fun hg ↦ List.mem_append_right _ (List.mem_cons_of_mem _ hg)
    exact h.get_set_of_ne hreached.mem hmem
      (fun heq ↦ h.name_ne hreached.members_eq g hg (congrArg Member.name heq.symm)) _ _
  refine ⟨hreached.next, ?_, fun g hg ↦ ?_, fun k hk ↦ ?_, ?_⟩
  · rw [List.forall_mem_append, List.forall_mem_singleton]
    exact ⟨fun g hg ↦ (hkept g (List.mem_append_left _ hg)).trans (hreached.get_before g hg),
      f.get_set ..⟩
  · exact (hkept g (List.mem_append_right _ hg)).trans
      (hreached.get_after g (List.mem_cons_of_mem _ hg))
  · rw [List.map_append, List.mem_append]
    exact (List.mem_cons.1 hk).elim (fun heq ↦ .inr (List.mem_singleton.2 heq))
      fun hk ↦ .inl (hreached.mem_names k hk)
  · rw [List.forall_mem_append, List.forall_mem_singleton]
    exact ⟨fun g hg hg' ↦ List.mem_cons_of_mem _ (hreached.required g hg hg'),
      fun _ ↦ List.mem_cons_self ..⟩

/-- The next member is left out. -/
theorem Reached.leftOut (hreached : Reached members before (f :: after) a b seen)
    (hinitial : f.get a = f.initial) (habsence : f.absence ≠ .required) :
    Reached members (before ++ [f]) after a b seen := by
  refine ⟨hreached.next, ?_, fun g hg ↦ hreached.get_after g (List.mem_cons_of_mem _ hg),
    fun k hk ↦ ?_, ?_⟩
  · rw [List.forall_mem_append, List.forall_mem_singleton, hinitial]
    exact ⟨hreached.get_before, hreached.get_after f (List.mem_cons_self ..)⟩
  · rw [List.map_append]
    exact List.mem_append_left _ (hreached.mem_names k hk)
  · rw [List.forall_mem_append, List.forall_mem_singleton]
    exact ⟨hreached.required, fun heq ↦ absurd heq habsence⟩

/-- At the end the record is read, and no required member is missing. -/
theorem Reached.finish (h : F.Laid r members) (hreached : Reached members before [] a b seen) :
    r.readFields depth .closed b seen [] = .ok a := by
  have hmembers : members = before := hreached.members_eq.trans (List.append_nil _)
  have hall : (r.slots.all fun s ↦ s.absence != .required || seen.contains s.name) = true := by
    rw [h.slots, List.all_map, List.all_eq_true]
    intro f hf
    show (f.absence != .required || seen.contains f.name) = true
    rw [Bool.or_eq_true, bne_iff_ne, List.contains_iff_mem]
    exact or_iff_not_imp_left.2 fun hrequired ↦
      hreached.required f (hmembers ▸ hf) (not_not.1 hrequired)
  have hba : b = a := h.ext b a fun f hf ↦ hreached.get_before f (hmembers ▸ hf)
  rw [Record.readFields, hall, hba]
  rfl

/-- **What is written of a record is read as that record**: each member in turn is read as its
content or, if it is left out, was that before. -/
theorem readFields_written (h : F.Laid r members)
    (hread : ∀ f ∈ members, f.form.read depth (f.form.tree (f.get a)) = .ok (f.get a))
    (hreached : Reached members before after a b seen) :
    r.readFields depth .closed b seen (after.filterMap (Member.written a)) = .ok a := by
  induction after generalizing before b seen with
  | nil => exact hreached.finish h
  | cons f after ih =>
    rcases f.shown_or (f.get a) with hshown | ⟨hshown, hinitial, habsence⟩
    · have hwritten : f.written a = some (some f.name, f.form.tree (f.get a)) := by
        rw [Member.written, hshown]
        rfl
      have hset : f.slot.read depth (f.form.tree (f.get a)) = .ok (f.set (f.get a)) :=
        Member.slot_read_eq_ok_iff.2 ⟨_, hread f hreached.mem, rfl⟩
      have hnew : ¬seen.contains f.name = true := by
        rw [List.contains_iff_mem]
        exact hreached.not_mem h
      rw [List.filterMap_cons_some hwritten, Record.readFields, h.find?_slot hreached.mem]
      dsimp only
      rw [if_neg hnew, hset]
      exact ih (hreached.read h)
    · have hwritten : f.written a = none := by rw [Member.written, hshown]; rfl
      rw [List.filterMap_cons_none hwritten]
      exact ih (hreached.leftOut hinitial habsence)

end Reading

/-- **A record is restored if its members are**, one level down. -/
theorem restoresFrom (h : F.Laid r members) {k : Nat}
    (hrestored : ∀ f ∈ members, f.RestoredFrom k) : F.RestoresFrom (k + 1) := by
  intro depth hdepth a ha hfaithful
  obtain ⟨d, rfl, hget⟩ := h.reads_get ha
  have hmember : ∀ f ∈ members, f.form.read d (f.form.tree (f.get a)) = .ok (f.get a) ∧
      (f.form.tree (f.get a)).Whole := fun f hf ↦ by
    refine (hrestored f hf).form d (by omega) (f.get a) ?_
      fun n hn ↦ hfaithful n (h.numbers a f hf hn)
    rcases hget f hf with hreads | heq
    · exact hreads
    · rw [heq]
      exact (hrestored f hf).initial d (by omega)
  have hstart : Reached members [] members a r.blank [] := ⟨rfl, nofun, h.initial, nofun, nofun⟩
  have hback := h.readFields_written (fun f hf ↦ (hmember f hf).1) hstart
  rw [h.read, h.tree]
  refine ⟨hback, rfl, Tree.wholeFields_iff.2 fun e he ↦ ?_⟩
  obtain ⟨f, hf, hwritten⟩ := List.mem_filterMap.1 he
  obtain ⟨t, ht, rfl⟩ := Option.map_eq_some_iff.1 hwritten
  rcases f.shown_or (f.get a) with hshown | ⟨hshown, -⟩
  · rw [hshown] at ht
    cases ht
    exact ⟨Option.some_ne_none _, (hmember f hf).2⟩
  · rw [hshown] at ht
    cases ht

end Form.Laid

end CitedAnswers.Json
