import CitedAnswers.Proofs.Choosing
import CitedAnswers.Proofs.Deciding
import CitedAnswers.Proofs.Forms
import CitedAnswers.Settings.Load

/-!
# Loaded settings

Settings are loaded from layers in a fixed order: those of the files, the usual file first, and that
of the environment. `Settings.loaded` says what comes of it. Every field of the settings has the
deciding value of its place, or its usual value if there is none; the settings are checked, and an
engine can be built from them. Conversely, whenever every field can be read in the end, the settings
are refused only for what is wrong with them, the first section at fault deciding.

The argument is about one `Settings.Field` at a time. What a field needs of its reader is
`Setting.IsReader`: a table is read for its only key or not at all, so it makes no difference that
values grow as they are laid over one another. The usual settings are laid below the layers as a
whole, which is why the value in the end is the merged value of the field laid over the usual one
(`Settings.Field.Reads.merged_eq`).

The check looks at the settings and never at a layer. That nothing else is in the way of an engine
is `Settings.ofSettings_cases`: the choices that settings stand for are refused for a sizing only.

Which formats of files there are, and in which order they are tried, makes no difference to any of
this; nor does the vocabulary of the engine.
-/

namespace CitedAnswers

open Json (bind_eq_ok_iff)

/-! ### Readers -/

namespace Setting

variable {α : Type}

/-- **What a reader of a value may read off it.** It reads nothing off a table without entries, and
what it reads off a table it reads off any tidy part of the table that is not empty. -/
structure IsReader (f : Setting → Option α) : Prop where
  nothing : f (.table []) = none
  within : ∀ {u w : Setting} {a : α}, u.Tidy → u ≠ .table [] → u.Within w → f w = some a →
    f u = some a

/-- A reader of scalars. -/
theorem isReader_of_table {f : Setting → Option α} (h : ∀ es, f (.table es) = none) :
    IsReader f where
  nothing := h []
  within {u w a} _ _ hwithin hw := by
    rcases hwithin with rfl | ⟨-, htable, -⟩
    · exact hw
    · obtain ⟨es, rfl⟩ := isTable_iff.1 htable
      rw [h] at hw
      cases hw

/-- A size is read off a scalar. -/
theorem isReader_toSize? : IsReader toSize? := isReader_of_table fun _ ↦ rfl

/-- A truth value is read off a scalar. -/
theorem isReader_toBool? : IsReader toBool? := isReader_of_table fun _ ↦ rfl

/-- A text is read off a scalar. -/
theorem isReader_toText? : IsReader toText? := isReader_of_table fun _ ↦ rfl

/-- A table is read as a name for its only key. -/
theorem toName?_eq_some_of_isTable {names : String → Option α} {w : Setting} {a : α}
    (h : w.isTable) (hw : toName? names w = some a) :
    ∃ k, w.names = [k] ∧ names (lower k) = some a := by
  obtain ⟨es, rfl⟩ := isTable_iff.1 h
  match es, hw with
  | [(k, _)], hw => exact ⟨k, rfl, hw⟩

/-- A name may be the only key of a table. A tidy part of such a table has the same only key. -/
theorem isReader_toName? (names : String → Option α) : IsReader (toName? names) where
  nothing := rfl
  within {u w a} htidy hne hwithin hw := by
    rcases hwithin with rfl | ⟨hu, htable, hnames⟩
    · exact hw
    obtain ⟨k, hk, hnamed⟩ := toName?_eq_some_of_isTable htable hw
    obtain ⟨es, rfl⟩ := isTable_iff.1 hu
    have hall : ∀ e ∈ es, e.1 = k := fun e he ↦
      List.mem_singleton.1 (hk ▸ hnames (List.mem_map_of_mem he))
    match es, hall with
    | [], _ => exact absurd rfl hne
    | [(j, v)], hall =>
      have hj : j = k := hall (j, v) List.mem_cons_self
      rw [toName?, hj, hnamed]
    | e :: e' :: es, hall =>
      have hsame : e.1 = e'.1 := (hall e (by simp)).trans (hall e' (by simp)).symm
      have hdistinct := htidy.nodup
      simp [Setting.names, entries, hsame] at hdistinct

end Setting

namespace Settings

open Setting

/-! ### Fields -/

/-- A field of settings: where its value stands, how that is read, and where it goes. -/
structure Field where
  {Content : Type}
  section_ : String
  name : String
  read : Setting → Option Content
  get : Settings → Content
  isReader : IsReader read

/-- The fields of a sizing. -/
def sizingFields (section_ : String) (get : Settings → Sizing) : List Field :=
  [⟨section_, "chunk_size", toSize?, fun s ↦ (get s).size, isReader_toSize?⟩,
    ⟨section_, "chunk_overlap", toSize?, fun s ↦ (get s).overlap, isReader_toSize?⟩,
    ⟨section_, "measure", toName? Measure.ofName?, fun s ↦ (get s).measure, isReader_toName? _⟩]

/-- The fields of settings. -/
def fields : List Field :=
  sizingFields "source" Settings.source ++ sizingFields "citation" Settings.citation ++
    [⟨"synthesis", "response_mode", toName? Synthesis.Mode.ofName?, fun s ↦ s.synthesis.mode,
        isReader_toName? _⟩,
      ⟨"synthesis", "max_context_chars", toSize?, fun s ↦ s.synthesis.budget, isReader_toSize?⟩,
      ⟨"observability", "log_level", toText?, fun s ↦ s.reporting.level, isReader_toText?⟩,
      ⟨"observability", "json_logging", toBool?, fun s ↦ s.reporting.structured,
        isReader_toBool?⟩,
      ⟨"observability", "service_name", toText?, fun s ↦ s.reporting.service, isReader_toText?⟩]

/-- A value has in the place of a field what settings have in the field. -/
def Field.Reads (f : Field) (t : Setting) (s : Settings) : Prop :=
  f.read ((t.under f.section_).under f.name) = some (f.get s)

/-- Where there is no value, a reader is given a table without entries, off which it reads
nothing. -/
theorem read_eq_ok_iff {α : Type} {f : Setting → Option α} (hf : IsReader f) {t : Setting}
    {section_ name : String} {a : α} :
    read t section_ name f = .ok a ↔ f ((t.under section_).under name) = some a := by
  have hvalue : ((t.get? section_).bind (·.get? name)).bind f =
      f ((t.under section_).under name) := by
    rw [under, under]
    cases t.get? section_ with
    | none => exact hf.nothing.symm
    | some u =>
      simp only [Option.bind_some, Option.getD_some]
      cases u.get? name with
      | none => exact hf.nothing.symm
      | some v => rfl
  rw [read, hvalue]
  cases f ((t.under section_).under name) <;> simp

/-- A sizing is read off a section if each of its fields is. -/
theorem readSizing_eq_ok_iff {t : Setting} {section_ : String} {get : Settings → Sizing}
    {s : Settings} :
    readSizing t section_ = .ok (get s) ↔ ∀ f ∈ sizingFields section_ get, f.Reads t s := by
  simp only [readSizing, bind_eq_ok_iff, read_eq_ok_iff isReader_toSize?,
    read_eq_ok_iff (isReader_toName? _), sizingFields, List.forall_mem_cons, Field.Reads]
  constructor
  · rintro ⟨size, hsize, overlap, hoverlap, measure, hmeasure, heq⟩
    rw [← Except.ok.inj heq]
    exact ⟨hsize, hoverlap, hmeasure, fun _ h ↦ absurd h List.not_mem_nil⟩
  · rintro ⟨hsize, hoverlap, hmeasure, -⟩
    exact ⟨_, hsize, _, hoverlap, _, hmeasure, rfl⟩

/-- **The settings that a value stands for** have what it has in the place of each field. -/
theorem ofSetting_eq_ok_iff {t : Setting} {s : Settings} :
    ofSetting t = .ok s ↔ ∀ f ∈ fields, f.Reads t s := by
  rw [fields, List.forall_mem_append, List.forall_mem_append, ← readSizing_eq_ok_iff,
    ← readSizing_eq_ok_iff]
  simp only [List.forall_mem_cons, ofSetting, bind_eq_ok_iff, read_eq_ok_iff isReader_toSize?,
    read_eq_ok_iff isReader_toText?, read_eq_ok_iff isReader_toBool?,
    read_eq_ok_iff (isReader_toName? _), Field.Reads]
  constructor
  · rintro ⟨source, hsource, citation, hcitation, mode, hmode, budget, hbudget, level, hlevel,
      structured, hstructured, service, hservice, heq⟩
    rw [← Except.ok.inj heq]
    exact ⟨⟨hsource, hcitation⟩, hmode, hbudget, hlevel, hstructured, hservice,
      fun _ h ↦ absurd h List.not_mem_nil⟩
  · rintro ⟨⟨hsource, hcitation⟩, hmode, hbudget, hlevel, hstructured, hservice, -⟩
    exact ⟨_, hsource, _, hcitation, _, hmode, _, hbudget, _, hlevel, _, hstructured, _, hservice,
      rfl⟩

/-! ### The value of a field -/

/-- What layers come to over the usual settings. -/
def merged (ls : List Layer) : Setting := standard.toSetting.lay (Layer.merge ls)

/-- **A field follows layers**: it has the deciding value, or what it has in the usual settings if
there is none. -/
structure Field.Follows (f : Field) (ls : List Layer) (s : Settings) : Prop where
  decided : ∀ v, Layer.Decides ls f.section_ f.name v → f.read v = some (f.get s)
  undecided : (∀ v, ¬ Layer.Decides ls f.section_ f.name v) → f.get s = f.get standard

/-- The usual settings are read back from what they are laid down as. -/
theorem ofSetting_toSetting_standard : ofSetting standard.toSetting = .ok standard := by
  rfl

variable {ls : List Layer} {s : Settings} {f : Field}

/-- A field that can be read in the end stands in a section that is a table in the end. -/
theorem Field.Reads.merged_eq (h : f.Reads (merged ls) s) :
    ((merged ls).under f.section_).under f.name =
      ((standard.toSetting.under f.section_).under f.name).lay
        (((Layer.merge ls).under f.section_).under f.name) := by
  have htidy := Layer.tidyTo_merge 1 ls
  have hsection : (merged ls).under f.section_ =
      (standard.toSetting.under f.section_).lay ((Layer.merge ls).under f.section_) :=
    htidy.1.under_lay (Layer.isTable_merge ls) _ _
  by_cases htable : ((Layer.merge ls).under f.section_).isTable
  · rw [hsection]
    exact (htidy.2 f.section_).under_lay htable _ _
  · rw [Field.Reads, hsection, lay_of_not_isTable _ htable, under_of_not_isTable htable,
      f.isReader.nothing] at h
    cases h

/-- **A field that can be read in the end follows the layers.** -/
theorem Field.Reads.follows (hf : f ∈ fields) (h : f.Reads (merged ls) s) : f.Follows ls s := by
  have hread : f.read (((standard.toSetting.under f.section_).under f.name).lay
      (((Layer.merge ls).under f.section_).under f.name)) = some (f.get s) := h.merged_eq ▸ h
  rcases Layer.merge_cases ls f.section_ f.name with ⟨v, hv, hwithin⟩ | ⟨hnone, hempty⟩
  · refine ⟨fun w hw ↦ ?_, fun hnone ↦ absurd hv (hnone v)⟩
    obtain ⟨l, -, hsets⟩ := hv.sets
    have hfinal := hwithin.trans
      (((Layer.tidyTo_merge 2 ls).2 f.section_).2 f.name |>.within_lay (hwithin.ne_empty hsets.2)
        ((standard.toSetting.under f.section_).under f.name))
    rw [hw.eq hv]
    exact f.isReader.within hsets.tidy hsets.2 hfinal hread
  · refine ⟨fun v hv ↦ absurd hv (hnone v), fun _ ↦ ?_⟩
    rw [hempty, lay_empty] at hread
    have hstandard : f.Reads standard.toSetting standard :=
      ofSetting_eq_ok_iff.1 ofSetting_toSetting_standard f hf
    exact Option.some.inj (hread.symm.trans hstandard)

/-! ### Faults -/

/-- **What is wrong with settings**: the fault of the first section that has one. -/
def fault? (s : Settings) : Option Failure :=
  (s.source.fault?.or s.citation.fault?).or
    (if s.synthesis.budget = 0 then
      some (.configuration "synthesis.max_context_chars must be greater than zero")
    else none)

/-- The check of settings finds the first fault and no other. -/
theorem check_eq (s : Settings) : s.check = s.fault?.elim (.ok ()) .error := by
  rw [check, fault?, Sizing.check, Sizing.check]
  cases s.source.fault? with
  | some f => rfl
  | none =>
    cases s.citation.fault? with
    | some f => rfl
    | none =>
      by_cases hbudget : s.synthesis.budget = 0
      · simp [hbudget, bind, Except.bind]
      · simp [hbudget, bind, Except.bind, pure, Except.pure]

/-- Settings are accepted if nothing is wrong with them. -/
theorem check_eq_ok_iff : s.check = .ok () ↔ s.fault? = none := by
  rw [check_eq]
  cases s.fault? <;> simp

/-- Settings that have been read are refused for what is wrong with them, and given otherwise. -/
theorem ofLayers_eq (h : ofSetting (merged ls) = .ok s) :
    ofLayers ls = s.fault?.elim (.ok s) .error := by
  rw [merged] at h
  rw [ofLayers, h]
  show (s.check >>= fun _ ↦ pure s) = _
  rw [check_eq]
  cases s.fault? <;> rfl

/-- Layers give settings if these can be read off them and are accepted. -/
theorem ofLayers_eq_ok_iff :
    ofLayers ls = .ok s ↔ ofSetting (merged ls) = .ok s ∧ s.check = .ok () := by
  simp only [ofLayers, bind_eq_ok_iff]
  constructor
  · rintro ⟨t, ht, u, hcheck, heq⟩
    cases heq
    exact ⟨ht, hcheck⟩
  · rintro ⟨ht, hcheck⟩
    exact ⟨s, ht, (), hcheck, rfl⟩

/-- The choices of settings are refused for a sizing only. -/
theorem refusal?_choicesOf (s : Settings) (m : Model) :
    Choice.refusal? (Draft.choicesOf s m) = s.source.fault?.or s.citation.fault? := rfl

/-- **The engine of settings** is refused for what is wrong with the settings, and is built
otherwise. -/
theorem ofSettings_cases (v : Token.Vocabulary) (s : Settings) (r : Retriever) (m : Model) :
    (∃ f, s.check = .error f ∧ Engine.ofSettings v s r m = .error f) ∨
      ∃ e, s.check = .ok () ∧ Engine.ofSettings v s r m = .ok e ∧
        Draft.Assembled v r (Draft.choicesOf s m) e := by
  cases hcheck : s.check with
  | error f => exact .inl ⟨f, rfl, by rw [Engine.ofSettings, hcheck]; rfl⟩
  | ok =>
    have hengine : Engine.ofSettings v s r m =
        (Draft.ofChoices r (Draft.choicesOf s m)).build v := by
      rw [Engine.ofSettings, hcheck]
      rfl
    have hnone : s.source.fault?.or s.citation.fault? = none :=
      (Option.or_eq_none_iff.1 (check_eq_ok_iff.1 hcheck)).1
    rcases Draft.build_cases v r (Draft.choicesOf s m) with ⟨f, -, hf⟩ | ⟨e, he, -, hassembled⟩
    · rw [refusal?_choicesOf, hnone] at hf
      cases hf
    · exact .inr ⟨e, rfl, hengine.trans he, hassembled⟩

/-! ### Files -/

/-- What the file of a name says. -/
def HasLayer (formats : List Format) (access : FileAccess Id) (name : String) (l : Layer) : Prop :=
  ∃ f said, (find formats access name).run = some (f, said) ∧ f.layer? said = some l

/-- What the file of a name says, or nothing if there is none. -/
def MayHaveLayer (formats : List Format) (access : FileAccess Id) (name : String) (l : Layer) :
    Prop :=
  HasLayer formats access name l ∨ (find formats access name).run = none ∧ l = []

variable {formats : List Format} {access : FileAccess Id} {env : Environment} {name : String}
  {l : Layer}

/-- A file that is not required may say nothing for want of a file, but not for want of sense. -/
theorem fileLayer_eq_ok_iff {required : Bool} :
    (fileLayer formats access required name).run = .ok l ↔ HasLayer formats access name l ∨
      required = false ∧ (find formats access name).run = none ∧ l = [] := by
  rw [fileLayer, Id.run_bind, HasLayer]
  cases (find formats access name).run with
  | none => cases required <;> simp [eq_comm]
  | some found =>
    obtain ⟨f, said⟩ := found
    cases hlayer : f.layer? said <;> simp [hlayer]

theorem fileLayer_false_eq_ok_iff :
    (fileLayer formats access false name).run = .ok l ↔ MayHaveLayer formats access name l := by
  rw [fileLayer_eq_ok_iff, MayHaveLayer]
  simp

theorem fileLayer_true_eq_ok_iff :
    (fileLayer formats access true name).run = .ok l ↔ HasLayer formats access name l := by
  rw [fileLayer_eq_ok_iff]
  simp

/-- The first file that cannot be read is in the way of all behind it. -/
theorem fileLayers_cons (n : String) (ns : List String) :
    (fileLayers formats access (n :: ns)).run = (fileLayer formats access false n).run >>= fun l ↦
      (fileLayers formats access ns).run >>= fun ls ↦ .ok (l :: ls) := by
  rw [fileLayers, Id.run_bind]
  cases (fileLayer formats access false n).run with
  | error f => rfl
  | ok l =>
    simp only [Id.run_bind]
    cases (fileLayers formats access ns).run <;> rfl

/-- Files give their layers in their order. -/
theorem fileLayers_eq_ok_iff {ns : List String} {ls : List Layer} :
    (fileLayers formats access ns).run = .ok ls ↔
      List.Forall₂ (MayHaveLayer formats access) ns ls := by
  induction ns generalizing ls with
  | nil =>
    rw [List.forall₂_nil_left_iff]
    exact ⟨fun h ↦ (Except.ok.inj h).symm, fun h ↦ h ▸ rfl⟩
  | cons n ns ih =>
    simp only [fileLayers_cons, bind_eq_ok_iff, fileLayer_false_eq_ok_iff, ih,
      List.forall₂_cons_left_iff, Except.ok.injEq, @eq_comm _ ls]
    exact ⟨fun ⟨l, hl, ls', hls, heq⟩ ↦ ⟨l, ls', hl, hls, heq⟩,
      fun ⟨l, ls', hl, hls, heq⟩ ↦ ⟨l, hl, ls', hls, heq⟩⟩

/-! ### Loading -/

/-- **How settings come of layers.** Each field follows the layers; the settings are checked, and an
engine is built from them. Nothing else is an obstacle: if every field can be read in the end, the
settings that are read are refused for what is wrong with them, and accepted if nothing is. -/
structure Loads (ls : List Layer) (out : Except Failure Settings) : Prop where
  follows : ∀ s, out = .ok s → ∀ f ∈ fields, f.Follows ls s
  checked : ∀ s, out = .ok s → s.check = .ok ()
  builds : ∀ s, out = .ok s → ∀ v r m,
    ∃ e, Engine.ofSettings v s r m = .ok e ∧ Draft.Assembled v r (Draft.choicesOf s m) e
  refused : ∀ s e, (∀ f ∈ fields, f.Reads (merged ls) s) → s.fault? = some e → out = .error e
  accepted : ∀ s, (∀ f ∈ fields, f.Reads (merged ls) s) → s.fault? = none → out = .ok s

/-- **What becomes of layers** that are there. -/
theorem loads_ofLayers (ls : List Layer) : Loads ls (ofLayers ls) where
  follows s h f hf := ((ofSetting_eq_ok_iff.1 (ofLayers_eq_ok_iff.1 h).1) f hf).follows hf
  checked s h := (ofLayers_eq_ok_iff.1 h).2
  builds s h v r m := by
    rcases ofSettings_cases v s r m with ⟨f, hcheck, -⟩ | ⟨e, -, he⟩
    · rw [(ofLayers_eq_ok_iff.1 h).2] at hcheck
      cases hcheck
    · exact ⟨e, he⟩
  refused s e hreads hfault := by
    rw [ofLayers_eq (ofSetting_eq_ok_iff.2 hreads), hfault]
    rfl
  accepted s hreads hfault := by
    rw [ofLayers_eq (ofSetting_eq_ok_iff.2 hreads), hfault]
    rfl

variable (formats access env) in
/-- The environment is the layer on top of those of the files. -/
theorem load_eq : (load formats access env).run =
    (fileLayers formats access (fileNames env)).run.bind fun ls ↦ ofLayers (ls ++ [env.layer]) :=
  rfl

variable (formats access env name) in
/-- So it is with one file. -/
theorem loadFile_eq : (loadFile formats access env name).run =
    (fileLayer formats access true name).run.bind fun l ↦ ofLayers [l, env.layer] :=
  rfl

/-- The layers of the files with fixed names, below those of the environment. -/
structure FileLayers (formats : List Format) (access : FileAccess Id) (env : Environment)
    (usual kind place : Layer) : Prop where
  usual : MayHaveLayer formats access "config/default" usual
  kind : MayHaveLayer formats access ("config/" ++ (env.lookup "APP_ENV").getD "development") kind
  place : MayHaveLayer formats access "config/local" place

/-- The files with fixed names are three, the file for the kind of environment in the middle. -/
theorem fileLayers_fileNames_eq_ok_iff {ls : List Layer} :
    (fileLayers formats access (fileNames env)).run = .ok ls ↔ ∃ usual kind place,
      FileLayers formats access env usual kind place ∧ ls = [usual, kind, place] := by
  rw [fileLayers_eq_ok_iff, fileNames]
  constructor
  · rintro (_ | ⟨husual, _ | ⟨hkind, _ | ⟨hplace, _ | _⟩⟩⟩)
    exact ⟨_, _, _, ⟨husual, hkind, hplace⟩, rfl⟩
  · rintro ⟨usual, kind, place, ⟨husual, hkind, hplace⟩, rfl⟩
    exact .cons husual (.cons hkind (.cons hplace .nil))

/-- **Loaded settings.** Settings come of the layers of the files with fixed names and of the
environment, of which a missing file says nothing and an unreadable one is in the way; settings from
one file come of its layer and that of the environment, and the file has to be there. An engine of
settings is refused exactly when they are, and for the same failure. -/
theorem loaded (formats : List Format) (access : FileAccess Id) (env : Environment) :
    (∀ usual kind place, FileLayers formats access env usual kind place →
      Loads [usual, kind, place, env.layer] (load formats access env).run) ∧
    (∀ s, (load formats access env).run = .ok s → ∃ usual kind place,
      FileLayers formats access env usual kind place) ∧
    (∀ name l, HasLayer formats access name l →
      Loads [l, env.layer] (loadFile formats access env name).run) ∧
    (∀ name s, (loadFile formats access env name).run = .ok s →
      ∃ l, HasLayer formats access name l) ∧
    ∀ (s : Settings) v r m e, Engine.ofSettings v s r m = .error e ↔ s.check = .error e := by
  refine ⟨fun usual kind place h ↦ ?_, fun s h ↦ ?_, fun name l h ↦ ?_, fun name s h ↦ ?_,
    fun s v r m e ↦ ?_⟩
  · have hlayers := fileLayers_fileNames_eq_ok_iff.2 ⟨usual, kind, place, h, rfl⟩
    rw [load_eq, hlayers]
    exact loads_ofLayers _
  · obtain ⟨ls, hlayers, -⟩ := bind_eq_ok_iff.1 h
    obtain ⟨usual, kind, place, hfiles, -⟩ := fileLayers_fileNames_eq_ok_iff.1 hlayers
    exact ⟨usual, kind, place, hfiles⟩
  · rw [loadFile_eq, fileLayer_true_eq_ok_iff.2 h]
    exact loads_ofLayers _
  · obtain ⟨l, hlayer, -⟩ := bind_eq_ok_iff.1 h
    exact ⟨l, fileLayer_true_eq_ok_iff.1 hlayer⟩
  · rcases ofSettings_cases v s r m with ⟨f, hcheck, hf⟩ | ⟨e, hcheck, he, -⟩
    · rw [hcheck, hf, Except.error.injEq, Except.error.injEq]
    · rw [hcheck, he]
      exact ⟨nofun, nofun⟩

/-- An overlap is taken back by a later value for its whole section, although no later layer sets
an overlap. -/
theorem overlap_taken_back :
    ofLayers [[("source", .table [("chunk_overlap", .integer 7)])], [("source", .integer 5)],
      [("source", .table [("chunk_size", .integer 100)])], []] =
        .ok { standard with source := ⟨100, 20, .tokens⟩ } ∧
    Layer.Sets [("source", .table [("chunk_overlap", .integer 7)])] "source" "chunk_overlap"
      (.integer 7) ∧
    ∀ l ∈ [[("source", .integer 5)], [("source", .table [("chunk_size", .integer 100)])], []],
      ∀ v, ¬ Layer.Sets l "source" "chunk_overlap" v := by
  have hname : Path.isName (lower "source") := by decide
  have hlayOn : ∀ (v s : Setting),
      Layer.layOn [("source", v)] s = s.lay (.table [("source", v)]) :=
    fun v s ↦ congrArg s.lay (ofEntry_of_isName hname v)
  refine ⟨?_, ?_, ?_⟩
  · simp only [ofLayers, Layer.merge, List.foldl_cons, List.foldl_nil, hlayOn]
    rfl
  · simp only [Layer.Sets, Layer.view, hlayOn]
    exact ⟨rfl, by simp⟩
  · simp only [List.forall_mem_cons, Layer.forall_not_sets_iff, Layer.view, hlayOn]
    exact ⟨rfl, rfl, rfl, fun _ h ↦ absurd h List.not_mem_nil⟩

end Settings

end CitedAnswers
