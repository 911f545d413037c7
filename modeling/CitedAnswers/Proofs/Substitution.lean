import CitedAnswers.Template
import Mathlib.Data.List.Forall2
import Mathlib.Data.List.Induction

/-!
# Rendering is one substitution

A template is cut into parts, and values take the place of those parts that are placeholders. Said
of the text alone: a placeholder is a name in braces, wherever it stands, and the parts that are
placeholders are the placeholders of the text, no more and no fewer, whatever other braces there
are around them (`Template.render_substitutes`).

The cutting is a scan from left to right that goes on behind each placeholder. `Template.Cuts` says
just this much of it, and everything else rests on it. That the scan misses nothing is due to names
being free of braces: no placeholder begins within another one (`Template.Cuts.exists_part`).

The names are collected part by part, so what is said of them is kept from one part to the next:
each comes before another only if it appears where the other has not appeared yet
(`Template.collects_names`).
-/

namespace CitedAnswers

/-- Behind a text without a given character, everything from that character on is in the rest. -/
theorem exists_append_of_not_mem {α : Type} {c : α} {xs ys us vs : List α} (hc : c ∉ xs)
    (h : xs ++ ys = us ++ c :: vs) : ∃ us', us = xs ++ us' ∧ ys = us' ++ c :: vs := by
  rcases List.append_eq_append_iff.1 h with ⟨us', hus, hys⟩ | ⟨_ | ⟨b, bs⟩, hxs, hcs⟩
  · exact ⟨us', hus, hys⟩
  · exact ⟨[], by rw [List.append_nil, hxs, List.append_nil], hcs.symm⟩
  · obtain rfl := (List.cons_eq_cons.1 hcs).1
    exact absurd (hxs ▸ List.mem_append_right us (List.mem_cons_self ..)) hc

namespace Template

/-! ### Placeholders of a text -/

/-- A name: a letter of the alphabet or an underscore, and after it letters, digits and underscores,
all of them ASCII. -/
structure IsName (n : List Char) : Prop where
  starts : ∃ c ∈ n.head?, c.isAlpha = true ∨ c = '_'
  continues : ∀ c ∈ n, c.isAlphanum = true ∨ c = '_'

/-- A name in braces. -/
def braced (n : List Char) : List Char := '\x7b' :: (n ++ ['\x7d'])

theorem startsName_iff {c : Char} : startsName c = true ↔ c.isAlpha = true ∨ c = '_' := by
  simp [startsName]

theorem continuesName_iff {c : Char} : continuesName c = true ↔ c.isAlphanum = true ∨ c = '_' := by
  simp [continuesName]

/-- **What is read as a name** behind an opening brace is a name up to a closing one. -/
theorem name?_eq_some_iff {cs n : List Char} :
    name? cs = some n ↔ IsName n ∧ ∃ vs, cs = n ++ '\x7d' :: vs := by
  constructor
  · intro h
    rw [name?] at h
    split at h
    case h_1 c more vs htake hdrop =>
      split at h
      case isTrue hc =>
        obtain rfl := Option.some.inj h
        have hstarts : ∃ c ∈ (cs.takeWhile continuesName).head?, c.isAlpha = true ∨ c = '_' :=
          ⟨c, by rw [htake]; rfl, startsName_iff.1 hc⟩
        have hcontinues : ∀ d ∈ cs.takeWhile continuesName, d.isAlphanum = true ∨ d = '_' :=
          fun d hd ↦ continuesName_iff.1 (List.all_eq_true.1 List.all_takeWhile d hd)
        exact ⟨⟨hstarts, hcontinues⟩, vs, by rw [← hdrop, List.takeWhile_append_dropWhile]⟩
      case isFalse => cases h
    case h_2 => cases h
  · rintro ⟨⟨⟨c, hc, hstarts⟩, hcontinues⟩, vs, rfl⟩
    obtain ⟨more, rfl⟩ := List.head?_eq_some_iff.1 hc
    have hall : ∀ d ∈ c :: more, continuesName d = true := fun d hd ↦
      continuesName_iff.2 (hcontinues d hd)
    have htake : (c :: more ++ '\x7d' :: vs).takeWhile continuesName = c :: more := by
      rw [List.takeWhile_append_of_pos hall]
      exact List.append_nil _
    have hdrop : (c :: more ++ '\x7d' :: vs).dropWhile continuesName = '\x7d' :: vs := by
      rw [List.dropWhile_append_of_pos hall]
      rfl
    rw [name?, htake, hdrop]
    exact if_pos (startsName_iff.2 hstarts)

/-- **A text begins with a placeholder** if a name is read behind an opening brace. -/
theorem braced_append_iff {c : Char} {cs n : List Char} :
    (if c = '\x7b' then name? cs else none) = some n ↔
      IsName n ∧ ∃ vs, c :: cs = braced n ++ vs := by
  by_cases hc : c = '\x7b'
  · subst hc
    rw [if_pos rfl, name?_eq_some_iff]
    simp [braced]
  · rw [if_neg hc]
    simp [braced, hc]

/-- A text begins with one placeholder at most. -/
theorem braced_append_inj {m n us vs : List Char} (hm : IsName m) (hn : IsName n)
    (h : braced m ++ us = braced n ++ vs) : m = n ∧ us = vs := by
  have hmn : some m = some n :=
    (braced_append_iff.2 ⟨hm, us, rfl⟩).symm.trans (braced_append_iff.2 ⟨hn, vs, h⟩)
  obtain rfl := Option.some.inj hmn
  exact ⟨rfl, List.append_cancel_left h⟩

theorem IsName.openBrace_not_mem {n : List Char} (h : IsName n) : '\x7b' ∉ n ++ ['\x7d'] := by
  intro hmem
  rcases List.mem_append.1 hmem with hmem | hmem
  · rcases h.continues _ hmem with hc | hc <;> revert hc <;> decide
  · revert hmem
    decide

/-! ### Cutting a text into parts -/

/-- The characters that a part was cut from. -/
def Part.source : Part → List Char
  | .char c => [c]
  | .placeholder n => braced n

/-- **A text is cut into parts** from left to right: where a placeholder begins, it is taken whole,
and any other character is taken as it is. -/
inductive Cuts : List Char → List Part → Prop where
  | nil : Cuts [] []
  | placeholder {n cs : List Char} {ps : List Part} (hn : IsName n) (h : Cuts cs ps) :
    Cuts (braced n ++ cs) (.placeholder n :: ps)
  | char {c : Char} {cs : List Char} {ps : List Part}
    (hc : ∀ n vs, IsName n → c :: cs ≠ braced n ++ vs) (h : Cuts cs ps) :
    Cuts (c :: cs) (.char c :: ps)

theorem cuts_partsOf (cs : List Char) : Cuts cs (partsOf cs) := by
  fun_induction partsOf cs with
  | case1 => exact .nil
  | case2 c cs n h ih =>
    obtain ⟨hn, vs, hcs⟩ := braced_append_iff.1 h
    have hvs : cs.drop (n.length + 1) = vs := by
      rw [(List.cons_eq_cons.1 hcs).2]
      simp
    rw [hvs] at ih ⊢
    rw [hcs]
    exact .placeholder hn ih
  | case3 c cs h ih =>
    refine .char (fun n vs hn hcs ↦ ?_) ih
    have hsome := braced_append_iff.2 ⟨hn, vs, hcs⟩
    exact nomatch h.symm.trans hsome

namespace Cuts

variable {cs : List Char} {ps : List Part}

/-- Nothing is lost by cutting, nor added. -/
theorem flatMap_source (h : Cuts cs ps) : ps.flatMap Part.source = cs := by
  induction h with
  | nil => rfl
  | placeholder _ _ ih => exact congrArg (_ ++ ·) ih
  | char _ _ ih => exact congrArg (_ :: ·) ih

theorem isName (h : Cuts cs ps) {n : List Char} (hn : .placeholder n ∈ ps) : IsName n := by
  induction h with
  | nil => cases hn
  | placeholder hm _ ih =>
    rcases List.mem_cons.1 hn with heq | hn
    · cases heq
      exact hm
    · exact ih hn
  | char _ _ ih =>
    rcases List.mem_cons.1 hn with heq | hn
    · cases heq
    · exact ih hn

/-- **Every placeholder of a text is cut out**, with the parts before and behind it cut from what
stands before and behind it. -/
theorem exists_part (h : Cuts cs ps) {n us vs : List Char} (hn : IsName n)
    (hcs : cs = us ++ (braced n ++ vs)) :
    ∃ before after, ps = before ++ .placeholder n :: after ∧
      before.flatMap Part.source = us ∧ after.flatMap Part.source = vs := by
  induction h generalizing us with
  | nil => simp [braced] at hcs
  | @placeholder m cs ps hm h ih =>
    rcases us with - | ⟨u, us⟩
    · -- It is the placeholder that is taken here.
      obtain ⟨rfl, rfl⟩ := braced_append_inj hm hn hcs
      exact ⟨[], ps, rfl, rfl, h.flatMap_source⟩
    · -- It does not begin within that one, as a name holds no brace.
      obtain ⟨rfl, hrest⟩ := List.cons_eq_cons.1 hcs
      obtain ⟨us', rfl, hcs'⟩ := exists_append_of_not_mem hm.openBrace_not_mem hrest
      obtain ⟨before, after, rfl, hbefore, hafter⟩ := ih hcs'
      exact ⟨.placeholder m :: before, after, rfl, congrArg (braced m ++ ·) hbefore, hafter⟩
  | @char c cs ps hc h ih =>
    rcases us with - | ⟨u, us⟩
    · exact absurd hcs (hc n vs hn)
    · obtain ⟨rfl, hrest⟩ := List.cons_eq_cons.1 hcs
      obtain ⟨before, after, rfl, hbefore, hafter⟩ := ih hrest
      exact ⟨.char c :: before, after, rfl, congrArg (c :: ·) hbefore, hafter⟩

end Cuts

theorem cuts_parts (t : Template) : Cuts t.text.toList t.parts := cuts_partsOf _

/-- **A template consists of parts**: joined together they are its text, and those that are
placeholders are just those of the text, in the same places. -/
structure ConsistsOf (t : Template) (ps : List Part) : Prop where
  source : ps.flatMap Part.source = t.text.toList
  placeholder_iff : ∀ n us vs,
    (∃ before after, ps = before ++ .placeholder n :: after ∧
        before.flatMap Part.source = us ∧ after.flatMap Part.source = vs) ↔
      IsName n ∧ t.text.toList = us ++ (braced n ++ vs)

theorem consistsOf_parts (t : Template) : t.ConsistsOf t.parts where
  source := t.cuts_parts.flatMap_source
  placeholder_iff n us vs := by
    constructor
    · rintro ⟨before, after, hparts, rfl, rfl⟩
      have hmem : .placeholder n ∈ t.parts :=
        hparts ▸ List.mem_append_right _ (List.mem_cons_self ..)
      refine ⟨t.cuts_parts.isName hmem, ?_⟩
      rw [← t.cuts_parts.flatMap_source, hparts, List.flatMap_append, List.flatMap_cons,
        Part.source]
    · rintro ⟨hn, htext⟩
      exact t.cuts_parts.exists_part hn htext

/-! ### The names of the placeholders -/

/-- **Names are collected** from parts: those of the placeholders, and each before another only if
it appears where the other has not appeared yet. -/
structure Collects (ps : List Part) (ns : List (List Char)) : Prop where
  mem_iff : ∀ n, n ∈ ns ↔ .placeholder n ∈ ps
  pairwise : ns.Pairwise fun m n ↦
    ∃ before after, ps = before ++ after ∧ .placeholder m ∈ before ∧ .placeholder n ∉ before

/-- One more part keeps what is said of the names collected before. -/
theorem Collects.pairwise_append {ps : List Part} {ns : List (List Char)} (h : Collects ps ns)
    (p : Part) : ns.Pairwise fun m n ↦
      ∃ before after, ps ++ [p] = before ++ after ∧ .placeholder m ∈ before ∧
        .placeholder n ∉ before := by
  refine h.pairwise.imp ?_
  rintro m n ⟨before, after, rfl, hm, hn⟩
  exact ⟨before, after ++ [p], List.append_assoc .., hm, hn⟩

/-- **One part** adds its name if it has not appeared yet. -/
theorem Collects.add {ps : List Part} {ns : List (List Char)} (h : Collects ps ns) (p : Part) :
    Collects (ps ++ [p]) (addName ns p) := by
  cases p with
  | char c => exact ⟨fun n ↦ by simp [addName, h.mem_iff], h.pairwise_append _⟩
  | placeholder n =>
    rw [addName]
    split
    case isTrue hn =>
      refine ⟨fun m ↦ ?_, h.pairwise_append _⟩
      rw [List.mem_append, List.mem_singleton, Part.placeholder.injEq, ← h.mem_iff]
      exact ⟨.inl, fun hm ↦ hm.elim id (· ▸ hn)⟩
    case isFalse hn =>
      refine ⟨fun m ↦ by simp [h.mem_iff], ?_⟩
      refine List.pairwise_append.2 ⟨h.pairwise_append _, List.pairwise_singleton _ _, ?_⟩
      intro m hm n' hn'
      obtain rfl := List.mem_singleton.1 hn'
      exact ⟨ps, _, rfl, (h.mem_iff m).1 hm, fun hmem ↦ hn ((h.mem_iff n').2 hmem)⟩

/-- **All parts**, one after another. -/
theorem collects_names (ps : List Part) : Collects ps (ps.foldl addName []) := by
  induction ps using List.reverseRecOn with
  | nil => exact ⟨fun n ↦ by simp, .nil⟩
  | append_singleton ps p ih =>
    rw [List.foldl_append]
    exact ih.add p

/-- A placeholder of a name stands in a template, behind the given number of characters. -/
def StandsAt (t : Template) (v : String) (i : Nat) : Prop :=
  IsName v.toList ∧ ∃ us vs : String, t.text = us ++ ("\x7b" ++ v ++ "\x7d") ++ vs ∧ us.length = i

/-- Where a placeholder stands, told by the parts before it. -/
theorem standsAt_iff {t : Template} {n : List Char} {i : Nat} :
    t.StandsAt (String.ofList n) i ↔ ∃ before after, t.parts = before ++ .placeholder n :: after ∧
      (before.flatMap Part.source).length = i := by
  have htext (us vs : String) : t.text = us ++ ("\x7b" ++ String.ofList n ++ "\x7d") ++ vs ↔
      t.text.toList = us.toList ++ (braced n ++ vs.toList) := by
    rw [← String.toList_inj]
    simp [braced]
  rw [StandsAt, String.toList_ofList]
  constructor
  · rintro ⟨hn, us, vs, heq, rfl⟩
    obtain ⟨before, after, hparts, hbefore, -⟩ :=
      ((consistsOf_parts t).placeholder_iff ..).2 ⟨hn, (htext us vs).1 heq⟩
    exact ⟨before, after, hparts, by rw [hbefore, String.length_toList]⟩
  · rintro ⟨before, after, hparts, rfl⟩
    obtain ⟨hn, heq⟩ :=
      ((consistsOf_parts t).placeholder_iff ..).1 ⟨before, after, hparts, rfl, rfl⟩
    refine ⟨hn, String.ofList (before.flatMap Part.source),
      String.ofList (after.flatMap Part.source), ?_, String.length_ofList⟩
    rw [htext, String.toList_ofList, String.toList_ofList, heq]

/-- **Names are listed** in the order of their first appearance in a template. -/
structure Lists (t : Template) (vs : List String) : Prop where
  /-- They are those of the placeholders. -/
  mem_iff : ∀ v, v ∈ vs ↔ ∃ i, t.StandsAt v i
  /-- None is listed twice. -/
  nodup : vs.Nodup
  /-- Each stands somewhere in front of all places of those listed behind it. -/
  pairwise : vs.Pairwise fun u v ↦ ∃ i, t.StandsAt u i ∧ ∀ j, t.StandsAt v j → i < j

/-- A name that appears where another has not appeared yet stands in front of it. -/
theorem exists_standsAt_lt {t : Template} {m n : List Char} {before after : List Part}
    (hparts : t.parts = before ++ after) (hm : .placeholder m ∈ before)
    (hn : .placeholder n ∉ before) :
    ∃ i, t.StandsAt (String.ofList m) i ∧ ∀ j, t.StandsAt (String.ofList n) j → i < j := by
  obtain ⟨front, back, rfl⟩ := List.append_of_mem hm
  refine ⟨(front.flatMap Part.source).length, standsAt_iff.2 ⟨front, back ++ after, ?_, rfl⟩,
    fun j hj ↦ ?_⟩
  · rw [hparts, List.append_assoc, List.cons_append]
  · obtain ⟨before', after', hparts', rfl⟩ := standsAt_iff.1 hj
    obtain ⟨more, rfl, -⟩ := exists_append_of_not_mem hn (hparts.symm.trans hparts')
    simp only [List.flatMap_append, List.flatMap_cons, List.length_append, Part.source, braced,
      List.length_cons]
    omega

theorem lists_placeholders (t : Template) : t.Lists t.placeholders := by
  have hcollects : Collects t.parts t.names := collects_names t.parts
  have hpairwise : t.placeholders.Pairwise fun u v ↦
      ∃ i, t.StandsAt u i ∧ ∀ j, t.StandsAt v j → i < j := by
    refine hcollects.pairwise.map String.ofList ?_
    rintro m n ⟨before, after, hparts, hm, hn⟩
    exact exists_standsAt_lt hparts hm hn
  refine ⟨fun v ↦ ?_, hpairwise.imp ?_, hpairwise⟩
  · have hv : v ∈ t.placeholders ↔ .placeholder v.toList ∈ t.parts := by
      rw [← hcollects.mem_iff, placeholders, List.mem_map]
      exact ⟨fun ⟨n, hn, hv⟩ ↦ hv ▸ String.toList_ofList.symm ▸ hn,
        fun hv ↦ ⟨_, hv, String.ofList_toList⟩⟩
    rw [hv, ← String.ofList_toList (s := v), String.toList_ofList]
    constructor
    · intro hmem
      obtain ⟨before, after, hparts⟩ := List.append_of_mem hmem
      exact ⟨_, standsAt_iff.2 ⟨before, after, hparts, rfl⟩⟩
    · rintro ⟨i, hi⟩
      obtain ⟨before, after, hparts, -⟩ := standsAt_iff.1 hi
      exact hparts ▸ List.mem_append_right _ (List.mem_cons_self ..)
  · -- A name that is listed twice would stand in front of all its places.
    rintro u v ⟨i, hu, hv⟩ rfl
    exact Nat.lt_irrefl i (hv i hu)

/-! ### Values in place of placeholders -/

/-- **What a part becomes**: a character stays what it is, and a placeholder becomes the first value
given for its name, character by character. -/
inductive Part.Becomes (values : List (String × String)) : Part → List Char → Prop where
  | char (c : Char) : Becomes values (.char c) [c]
  | placeholder {n : List Char} {v : String} (h : values.lookup (String.ofList n) = some v) :
    Becomes values (.placeholder n) v.toList

theorem Part.Becomes.eq_render {values : List (String × String)} {p : Part} {out : List Char}
    (h : p.Becomes values out) : out = p.render values := by
  cases h with
  | char c => rfl
  | placeholder h => rw [Part.render, value?, h, Option.map_some, Option.getD_some]

theorem Part.becomes_render {values : List (String × String)} {p : Part}
    (h : ∀ n, p = .placeholder n → (value? values n).isSome) :
    p.Becomes values (p.render values) := by
  cases p with
  | char c => exact .char c
  | placeholder n =>
    obtain ⟨v, hv⟩ := Option.isSome_iff_exists.1 (h n rfl)
    rw [Part.render, hv, Option.map_some, Option.getD_some]
    exact .placeholder hv

/-- Parts become something only if all their placeholders have values, and then just one thing. -/
theorem forall₂_becomes_iff {values : List (String × String)} {ps : List Part}
    {outs : List (List Char)} : List.Forall₂ (Part.Becomes values) ps outs ↔
      (∀ n, .placeholder n ∈ ps → (value? values n).isSome) ∧
        outs = ps.map (Part.render values) := by
  constructor
  · intro h
    induction h with
    | nil => exact ⟨fun n hn ↦ (nomatch hn), rfl⟩
    | @cons p out ps outs hp _ ih =>
      obtain ⟨hvalues, rfl⟩ := ih
      refine ⟨fun n hn ↦ ?_, by rw [List.map_cons, hp.eq_render]⟩
      rcases List.mem_cons.1 hn with rfl | hn
      · cases hp with
        | placeholder hv => exact Option.isSome_iff_exists.2 ⟨_, hv⟩
      · exact hvalues n hn
  · rintro ⟨hvalues, rfl⟩
    rw [List.forall₂_map_right_iff, List.forall₂_same]
    rintro p hp
    exact Part.becomes_render fun n hn ↦ hvalues n (hn ▸ hp)

/-- **Values are substituted** for the placeholders of a template, as the outcome says. -/
structure Substitutes (t : Template) (values : List (String × String))
    (out : Except Failure String) : Prop where
  /-- It fails if there is a placeholder without a value, for the first one listed. -/
  error_iff : ∀ f, out = .error f ↔
    ∃ v, t.placeholders.find? (fun v ↦ v ∉ values.map Prod.fst) = some v ∧
      f = .template ("missing value for placeholder \x7b" ++ v ++ "\x7d")
  /-- Otherwise it is what the parts become, joined together. -/
  ok_iff : ∀ s, out = .ok s ↔
    ∃ outs, List.Forall₂ (Part.Becomes values) t.parts outs ∧ s = String.ofList outs.flatten

theorem isNone_value? (values : List (String × String)) (n : List Char) :
    (value? values n).isNone = decide (String.ofList n ∉ values.map Prod.fst) := by
  rw [Bool.eq_iff_iff, Option.isNone_iff_eq_none, decide_eq_true_iff, value?,
    List.lookup_eq_none_iff, List.mem_map]
  simp only [bne_iff_ne]
  exact ⟨fun h ⟨x, hx, hn⟩ ↦ h x hx hn.symm, fun h x hx hn ↦ h ⟨x, hx, hn.symm⟩⟩

theorem find?_placeholders (t : Template) (values : List (String × String)) :
    t.placeholders.find? (fun v ↦ v ∉ values.map Prod.fst) =
      (t.names.find? fun n ↦ (value? values n).isNone).map String.ofList := by
  rw [placeholders, List.find?_map]
  congr 2
  funext n
  exact (isNone_value? values n).symm

theorem render_eq_error_iff {t : Template} {values : List (String × String)} {f : Failure} :
    t.render values = .error f ↔
      ∃ v, t.placeholders.find? (fun v ↦ v ∉ values.map Prod.fst) = some v ∧
        f = .template ("missing value for placeholder \x7b" ++ v ++ "\x7d") := by
  rw [render, find?_placeholders]
  cases t.names.find? fun n ↦ (value? values n).isNone <;> simp [missing, eq_comm]

/-- No placeholder is without a value if none of the names is. -/
theorem find?_isNone_eq_none_iff {t : Template} {values : List (String × String)} :
    (t.names.find? fun n ↦ (value? values n).isNone) = none ↔
      ∀ n, .placeholder n ∈ t.parts → (value? values n).isSome := by
  have hcollects : Collects t.parts t.names := collects_names t.parts
  rw [List.find?_eq_none]
  refine forall_congr' fun n ↦ ?_
  rw [hcollects.mem_iff, Option.isSome_iff_ne_none, Option.isNone_iff_eq_none]

theorem render_eq_ok_iff {t : Template} {values : List (String × String)} {s : String} :
    t.render values = .ok s ↔
      ∃ outs, List.Forall₂ (Part.Becomes values) t.parts outs ∧ s = String.ofList outs.flatten := by
  have hrender : t.render values = .ok s ↔
      (t.names.find? fun n ↦ (value? values n).isNone) = none ∧
        s = String.ofList (t.parts.flatMap (Part.render values)) := by
    rw [render]
    cases t.names.find? fun n ↦ (value? values n).isNone <;> simp [eq_comm]
  rw [hrender, find?_isNone_eq_none_iff, List.flatMap_def]
  simp only [forall₂_becomes_iff, and_assoc, exists_and_left, exists_eq_left]

/-- **Only the values of the placeholders matter**, and of those the first. -/
theorem render_congr {t : Template} {values values' : List (String × String)}
    (h : ∀ v ∈ t.placeholders, values.lookup v = values'.lookup v) :
    t.render values = t.render values' := by
  have hcollects : Collects t.parts t.names := collects_names t.parts
  have hvalue : ∀ n ∈ t.names, value? values n = value? values' n := fun n hn ↦
    h _ (List.mem_map_of_mem hn)
  have hfind : (t.names.find? fun n ↦ (value? values n).isNone) =
      t.names.find? fun n ↦ (value? values' n).isNone := by
    rw [← List.head?_filter, ← List.head?_filter]
    exact congrArg List.head? (List.filter_congr fun n hn ↦ by rw [hvalue n hn])
  have hparts : t.parts.flatMap (Part.render values) = t.parts.flatMap (Part.render values') := by
    refine List.flatMap_congr fun p hp ↦ ?_
    cases p with
    | char c => rfl
    | placeholder n => rw [Part.render, Part.render, hvalue n ((hcollects.mem_iff n).2 hp)]
  rw [render, render, hfind, hparts]

/-- **Placeholders put in place of themselves** give the text of the template back. -/
theorem render_eq_text {t : Template} {values : List (String × String)}
    (h : ∀ v ∈ t.placeholders, values.lookup v = some ("\x7b" ++ v ++ "\x7d")) :
    t.render values = .ok t.text := by
  have hcollects : Collects t.parts t.names := collects_names t.parts
  have hbecomes : List.Forall₂ (Part.Becomes values) t.parts (t.parts.map Part.source) := by
    rw [List.forall₂_map_right_iff, List.forall₂_same]
    intro p hp
    cases p with
    | char c => exact .char c
    | placeholder n =>
      have hsource : Part.source (.placeholder n) =
          ("\x7b" ++ String.ofList n ++ "\x7d").toList := by
        simp [Part.source, braced]
      have hmem : String.ofList n ∈ t.placeholders :=
        List.mem_map_of_mem ((hcollects.mem_iff n).2 hp)
      rw [hsource]
      exact .placeholder (h _ hmem)
  refine render_eq_ok_iff.2 ⟨_, hbecomes, ?_⟩
  rw [← List.flatMap_def, t.cuts_parts.flatMap_source, String.ofList_toList]

/-- **Rendering is one substitution** for all placeholders at once.

The names listed are those of all placeholders of the text, in the order of their first appearance.
The text is cut into parts, of which those that are placeholders are just the placeholders of the
text. Rendering fails for the first name listed that has no value. Otherwise every placeholder
becomes the first value given for its name, whatever braces that holds, and all other characters
stay what they are. So values of other names have no effect, nor have further values of the same
names; and placeholders put in place of themselves give the text back. -/
theorem render_substitutes (t : Template) :
    t.Lists t.placeholders ∧ t.ConsistsOf t.parts ∧
      (∀ values, t.Substitutes values (t.render values)) ∧
      (∀ values values', (∀ v ∈ t.placeholders, values.lookup v = values'.lookup v) →
        t.render values = t.render values') ∧
      ∀ values, (∀ v ∈ t.placeholders, values.lookup v = some ("\x7b" ++ v ++ "\x7d")) →
        t.render values = .ok t.text := by
  refine ⟨lists_placeholders t, consistsOf_parts t, fun values ↦ ⟨?_, ?_⟩, ?_, ?_⟩
  · exact fun f ↦ render_eq_error_iff
  · exact fun s ↦ render_eq_ok_iff
  · exact fun values values' ↦ render_congr
  · exact fun values ↦ render_eq_text

/-- Placeholders within stray braces, a value with braces, and values that have no effect. -/
theorem render_substitutes_nested :
    let t : Template := ⟨"\x7b\x7ba\x7d\x7d \x7bx\x7bb\x7d \x7b1\x7d"⟩
    let values := [("b", "\x7ba\x7d"), ("a", "one")]
    let values' := [("1", "two"), ("a", "one"), ("b", "\x7ba\x7d"), ("a", "three")]
    let same := [("a", "\x7ba\x7d"), ("b", "\x7bb\x7d")]
    ((∀ v ∈ t.placeholders, values.lookup v = values'.lookup v) ∧
        t.render values = t.render values' ∧
        t.render values = .ok "\x7bone\x7d \x7bx\x7ba\x7d \x7b1\x7d") ∧
      (∀ v ∈ t.placeholders, same.lookup v = some ("\x7b" ++ v ++ "\x7d")) ∧
        t.render same = .ok t.text := by
  intro t values values' same
  have hvalues : ∀ v ∈ t.placeholders, values.lookup v = values'.lookup v := by decide +kernel
  have hsame : ∀ v ∈ t.placeholders, same.lookup v = some ("\x7b" ++ v ++ "\x7d") := by
    decide +kernel
  obtain ⟨-, -, -, hcongr, htext⟩ := render_substitutes t
  exact ⟨⟨hvalues, hcongr values values' hvalues, by decide +kernel⟩, hsame, htext same hsame⟩

end Template

end CitedAnswers
