import CitedAnswers.Document
import CitedAnswers.Proofs.Restoring
import CitedAnswers.Query
import CitedAnswers.Response
import CitedAnswers.Settings.Basic

/-!
# Round trips through JSON

Whatever a type reads from a JSON text it reads again from the text that it writes for it. For each
record type the work is to list its members (`Form.Laid`), so that this comes down to the forms of
their contents; the rest is in `Form.Laid.restoresFrom`. Members differ in what becomes of a missing
content: it is left out, or written as `null`, or as an empty dictionary or array, and each is read
back as what it was. From which depth on a form restores only has to be known to lie below the depth
at which a reader gives up.
-/

namespace CitedAnswers

open Json (Form Member Floating Reader Tree)

/-! ### The forms of contents -/

/-- The form of metadata. -/
def metadataForm : Form Metadata := ⟨metadataReader, metadataTree, Form.fields.numbers⟩

theorem restoresFrom_metadata : metadataForm.RestoresFrom 1 := by
  have hform : metadataForm = Form.fields :=
    congrArg (fun tree ↦ (⟨metadataReader, tree, Form.fields.numbers⟩ : Form Metadata))
      (funext Json.toTree_object)
  rw [hform]
  exact Form.restoresFrom_dictionary Json.restoresFrom_value Json.keyOrder_keyBefore fun _ ↦ rfl

theorem Relationship.ofName?_name (r : Relationship) : ofName? r.name = some r := by
  cases r <;> decide

theorem Relationship.keyOrder_before : Json.KeyOrder Relationship.before where
  irrefl r := decide_eq_false (Nat.lt_irrefl _)
  trans _ _ _ h h' := decide_eq_true (Nat.lt_trans (of_decide_eq_true h) (of_decide_eq_true h'))
  total r s hne h := by
    cases r <;> cases s <;> first | rfl | exact absurd rfl hne | exact absurd h (by decide)

/-- The form of links. -/
def linksForm : Form Links :=
  .dictionary Relationship.before Relationship.ofName? Relationship.name .string

theorem restoresFrom_links : linksForm.RestoresFrom 1 :=
  Form.restoresFrom_dictionary Form.restoresFrom_string Relationship.keyOrder_before
    Relationship.ofName?_name

theorem numbers_links (ls : Links) : linksForm.numbers ls = [] :=
  List.flatMap_eq_nil_iff.2 fun _ _ ↦ rfl

theorem reads_string (depth : Nat) (s : String) : Form.string.read.Reads depth s :=
  ⟨.ofString s, rfl⟩

theorem reads_zero (depth : Nat) : Form.size.read.Reads depth 0 := ⟨.ofNat 0, rfl⟩

/-- An empty array, and an empty dictionary, take one level. -/
theorem reads_nil {α : Type} (F : Form α) (depth : Nat) (h : 1 ≤ depth) :
    F.list.read.Reads depth [] := by
  obtain ⟨d, rfl⟩ := Nat.exists_eq_add_of_le' h
  exact ⟨.array [] .closed, rfl⟩

/-! ### Nodes -/

namespace Position

/-- The form of positions. -/
def form : Form Position := ⟨record.read, toTree, fun _ ↦ []⟩

/-- The members of a position. -/
def members : List (Member Position) :=
  [.always "start" .required .size start (fun n p ↦ { p with start := n }) 0 fun _ _ ↦ rfl,
    .always "end" .required .size stop (fun n p ↦ { p with stop := n }) 0 fun _ _ ↦ rfl]

theorem laid : form.Laid record members where
  read := rfl
  slots := rfl
  tree _ := rfl
  numbers := by simp [members, Member.always, Form.size]
  initial := by simp [members, Member.always, record]
  nodup := by decide
  apart := by simp [members, Member.always, Member.Apart]
  ext a b h := by
    simp only [members, Member.always, List.forall_mem_cons] at h
    rcases a, b with ⟨⟨_, _⟩, ⟨_, _⟩⟩
    simp_all

theorem restoresFrom : form.RestoresFrom 1 := by
  refine laid.restoresFrom ?_
  simp only [members, List.forall_mem_cons]
  exact ⟨⟨Form.restoresFrom_size, fun depth _ ↦ reads_zero depth⟩,
    ⟨Form.restoresFrom_size, fun depth _ ↦ reads_zero depth⟩, nofun⟩

end Position

namespace Node

/-- The floating-point numbers in a node. -/
def numbers (n : Node) : List Floating := (n.metadata.map metadataForm.numbers).getD []

/-- The form of nodes. -/
def form : Form Node := ⟨record.read, toTree, numbers⟩

/-- The members of a node. -/
def members : List (Member Node) :=
  [.always "text" .required .string text (fun s n ↦ { n with text := s }) "" fun _ _ ↦ rfl,
    .optional "metadata" metadataForm metadata (fun m n ↦ { n with metadata := m }) fun _ _ ↦ rfl,
    .optional "relationships" linksForm links (fun l n ↦ { n with links := l }) fun _ _ ↦ rfl,
    .optional "position" Position.form position (fun p n ↦ { n with position := p })
      fun _ _ ↦ rfl]

theorem laid : form.Laid record members where
  read := rfl
  slots := rfl
  tree _ := rfl
  numbers n := by
    have hlinks : (linksForm.option.numbers n.links) = [] := by
      rcases hl : n.links with - | l
      · rfl
      · exact numbers_links l
    have hposition : Position.form.option.numbers n.position = [] := by
      rcases n.position with - | p <;> rfl
    simp only [members, List.forall_mem_cons]
    refine ⟨List.nil_subset _, List.Subset.refl _, ?_, ?_, nofun⟩
    · exact hlinks ▸ List.nil_subset _
    · exact hposition ▸ List.nil_subset _
  initial := by simp [members, Member.always, Member.optional, record]
  nodup := by decide
  apart := by simp [members, Member.always, Member.optional, Member.Apart]
  ext a b h := by
    simp only [members, Member.always, Member.optional, List.forall_mem_cons] at h
    rcases a, b with ⟨⟨_, _, _, _⟩, ⟨_, _, _, _⟩⟩
    simp_all

theorem restoresFrom : form.RestoresFrom 2 := by
  refine laid.restoresFrom ?_
  simp only [members, List.forall_mem_cons]
  exact ⟨⟨Form.restoresFrom_string.mono (Nat.zero_le 1), fun depth _ ↦ reads_string depth ""⟩,
    Member.restoredFrom_optional restoresFrom_metadata nofun,
    Member.restoredFrom_optional restoresFrom_links nofun,
    Member.restoredFrom_optional Position.restoresFrom nofun, nofun⟩

end Node

namespace ScoredNode

/-- The floating-point numbers in a node with its score. -/
def numbers (n : ScoredNode) : List Floating := n.score.toList.map Floating.single ++ n.node.numbers

/-- The form of nodes with their scores. -/
def form : Form ScoredNode := ⟨record.read, toTree, numbers⟩

/-- The members of a node with its score. -/
def members : List (Member ScoredNode) :=
  [.always "node" .required Node.form node (fun n s ↦ { s with node := n })
      ⟨"", none, none, none⟩ fun _ _ ↦ rfl,
    .optional "score" .single score (fun x s ↦ { s with score := x }) fun _ _ ↦ rfl]

theorem laid : form.Laid record members where
  read := rfl
  slots := rfl
  tree _ := rfl
  numbers n := by
    simp only [members, List.forall_mem_cons]
    refine ⟨List.subset_append_right _ _, ?_, nofun⟩
    rcases n with ⟨node, - | x⟩
    · exact List.nil_subset _
    · exact List.subset_append_left [Floating.single x] _
  initial := by simp [members, Member.always, Member.optional, record]
  nodup := by decide
  apart := by simp [members, Member.always, Member.optional, Member.Apart]
  ext a b h := by
    simp only [members, Member.always, Member.optional, List.forall_mem_cons] at h
    rcases a, b with ⟨⟨_, _⟩, ⟨_, _⟩⟩
    simp_all

theorem restoresFrom : form.RestoresFrom 3 := by
  have hblank (depth : Nat) (h : 2 ≤ depth) :
      Node.form.read.Reads depth ⟨"", none, none, none⟩ := by
    obtain ⟨d, rfl⟩ := Nat.exists_eq_add_of_le' h
    exact ⟨.object [(some "text", .string (some ""))] .closed, rfl⟩
  refine laid.restoresFrom ?_
  simp only [members, List.forall_mem_cons]
  exact ⟨⟨Node.restoresFrom, hblank⟩,
    Member.restoredFrom_optional (Form.restoresFrom_single.mono (Nat.zero_le 2)) nofun, nofun⟩

end ScoredNode

/-! ### Queries, responses and documents -/

namespace Query

/-- The floating-point numbers in a query. -/
def numbers (q : Query) : List Floating := (q.embedding.getD []).map Floating.single

/-- The form of queries. -/
def form : Form Query := ⟨record.read, toTree, numbers⟩

/-- The members of a query. -/
def members : List (Member Query) :=
  [.always "query_str" .required .string text (fun s q ↦ { q with text := s }) "" fun _ _ ↦ rfl,
    .optional "custom_embedding_strs" (.list .string) embeddingTexts
      (fun l q ↦ { q with embeddingTexts := l }) fun _ _ ↦ rfl,
    .optional "embedding" (.list .single) embedding (fun l q ↦ { q with embedding := l })
      fun _ _ ↦ rfl]

theorem laid : form.Laid record members where
  read := rfl
  slots := rfl
  tree _ := rfl
  numbers q := by
    have htexts : (Form.list .string).option.numbers q.embeddingTexts = [] := by
      rcases q.embeddingTexts with - | l
      · rfl
      · exact List.flatMap_eq_nil_iff.2 fun _ _ ↦ rfl
    have hembedding : (Form.list .single).option.numbers q.embedding = q.numbers := by
      rw [numbers]
      rcases q.embedding with - | l
      · rfl
      · exact List.map_eq_flatMap.symm
    simp only [members, List.forall_mem_cons]
    refine ⟨List.nil_subset _, ?_, ?_, nofun⟩
    · exact htexts ▸ List.nil_subset _
    · exact hembedding ▸ List.Subset.refl _
  initial := by simp [members, Member.always, Member.optional, record]
  nodup := by decide
  apart := by simp [members, Member.always, Member.optional, Member.Apart]
  ext a b h := by
    simp only [members, Member.always, Member.optional, List.forall_mem_cons] at h
    rcases a, b with ⟨⟨_, _, _⟩, ⟨_, _, _⟩⟩
    simp_all

theorem restoresFrom : form.RestoresFrom 2 := by
  refine laid.restoresFrom ?_
  simp only [members, List.forall_mem_cons]
  exact ⟨⟨Form.restoresFrom_string.mono (Nat.zero_le 1), fun depth _ ↦ reads_string depth ""⟩,
    Member.restoredFrom_optional (Form.restoresFrom_list Form.restoresFrom_string) nofun,
    Member.restoredFrom_optional (Form.restoresFrom_list Form.restoresFrom_single) nofun, nofun⟩

end Query

namespace Response

/-- The floating-point numbers in a response. -/
def numbers (r : Response) : List Floating :=
  r.sources.flatMap ScoredNode.numbers ++ (r.metadata.map metadataForm.numbers).getD []

/-- The form of responses. -/
def form : Form Response := ⟨record.read, toTree, numbers⟩

/-- The members of a response. -/
def members : List (Member Response) :=
  [.always "response" .optional (.option .string) answer (fun a r ↦ { r with answer := a }) none
      fun _ _ ↦ rfl,
    .always "source_nodes" .defaulted (.list ScoredNode.form) sources
      (fun l r ↦ { r with sources := l }) [] fun _ _ ↦ rfl,
    .optional "metadata" metadataForm metadata (fun m r ↦ { r with metadata := m }) fun _ _ ↦ rfl]

theorem laid : form.Laid record members where
  read := rfl
  slots := rfl
  tree _ := rfl
  numbers r := by
    have hanswer : (Form.option .string).numbers r.answer = [] := by
      rcases r.answer with - | s <;> rfl
    simp only [members, List.forall_mem_cons]
    refine ⟨?_, List.subset_append_left _ _, List.subset_append_right _ _, nofun⟩
    exact hanswer ▸ List.nil_subset _
  initial := by simp [members, Member.always, Member.optional, record]
  nodup := by decide
  apart := by simp [members, Member.always, Member.optional, Member.Apart]
  ext a b h := by
    simp only [members, Member.always, Member.optional, List.forall_mem_cons] at h
    rcases a, b with ⟨⟨_, _, _⟩, ⟨_, _, _⟩⟩
    simp_all

theorem restoresFrom : form.RestoresFrom 5 := by
  refine laid.restoresFrom ?_
  simp only [members, List.forall_mem_cons]
  have hanswer : (Form.option .string).RestoresFrom 4 :=
    (Form.restoresFrom_option nofun Form.restoresFrom_string).mono (Nat.zero_le 4)
  exact ⟨⟨hanswer, fun _ _ ↦ ⟨.null, rfl⟩⟩,
    ⟨Form.restoresFrom_list ScoredNode.restoresFrom,
      fun depth h ↦ reads_nil _ depth (Nat.le_trans (by decide) h)⟩,
    Member.restoredFrom_optional (restoresFrom_metadata.mono (by decide)) nofun, nofun⟩

end Response

namespace Document

/-- The floating-point numbers in a document. -/
def numbers (d : Document) : List Floating := metadataForm.numbers d.metadata

/-- The form of documents. -/
def form : Form Document := ⟨record.read, toTree, numbers⟩

/-- The members of a document. -/
def members : List (Member Document) :=
  [.always "doc_id" .defaulted (.option .string) id (fun i d ↦ { d with id := i }) none
      fun _ _ ↦ rfl,
    .always "text" .required .string text (fun s d ↦ { d with text := s }) "" fun _ _ ↦ rfl,
    .always "metadata" .defaulted metadataForm metadata (fun m d ↦ { d with metadata := m }) []
      fun _ _ ↦ rfl]

theorem laid : form.Laid record members where
  read := rfl
  slots := rfl
  tree _ := rfl
  numbers d := by
    have hid : (Form.option .string).numbers d.id = [] := by rcases d.id with - | s <;> rfl
    simp only [members, List.forall_mem_cons]
    refine ⟨?_, List.nil_subset _, List.Subset.refl _, nofun⟩
    exact hid ▸ List.nil_subset _
  initial := by simp [members, Member.always, record]
  nodup := by decide
  apart := by simp [members, Member.always, Member.Apart]
  ext a b h := by
    simp only [members, Member.always, List.forall_mem_cons] at h
    rcases a, b with ⟨⟨_, _, _⟩, ⟨_, _, _⟩⟩
    simp_all

theorem restoresFrom : form.RestoresFrom 2 := by
  refine laid.restoresFrom ?_
  simp only [members, List.forall_mem_cons]
  have hid : (Form.option .string).RestoresFrom 1 :=
    (Form.restoresFrom_option nofun Form.restoresFrom_string).mono (Nat.zero_le 1)
  have hempty (depth : Nat) (h : 1 ≤ depth) : metadataForm.read.Reads depth [] := by
    obtain ⟨d, rfl⟩ := Nat.exists_eq_add_of_le' h
    exact ⟨.object [] .closed, rfl⟩
  exact ⟨⟨hid, fun _ _ ↦ ⟨.null, rfl⟩⟩,
    ⟨Form.restoresFrom_string.mono (Nat.zero_le 1), fun depth _ ↦ reads_string depth ""⟩,
    ⟨restoresFrom_metadata, hempty⟩, nofun⟩

end Document

/-! ### Settings -/

namespace Sizing

/-- The form of sizings. -/
def form : Form Sizing := ⟨record.read, toTree, fun _ ↦ []⟩

/-- The members of a sizing. -/
def members : List (Member Sizing) :=
  [.always "chunk_size" .required .size size (fun n s ↦ { s with size := n }) 0 fun _ _ ↦ rfl,
    .always "chunk_overlap" .required .size overlap (fun n s ↦ { s with overlap := n }) 0
      fun _ _ ↦ rfl,
    .always "measure" .required (.name Measure.ofName? Measure.name) measure
      (fun m s ↦ { s with measure := m }) .characters fun _ _ ↦ rfl]

theorem laid : form.Laid record members where
  read := rfl
  slots := rfl
  tree _ := rfl
  numbers := by simp [members, Member.always, Form.size, Form.name]
  initial := by simp [members, Member.always, record]
  nodup := by decide
  apart := by simp [members, Member.always, Member.Apart]
  ext a b h := by
    simp only [members, Member.always, List.forall_mem_cons] at h
    rcases a, b with ⟨⟨_, _, _⟩, ⟨_, _, _⟩⟩
    simp_all

theorem restoresFrom : form.RestoresFrom 1 := by
  refine laid.restoresFrom ?_
  simp only [members, List.forall_mem_cons]
  have hmeasure (m : Measure) : Measure.ofName? m.name = some m := by cases m <;> decide
  exact ⟨⟨Form.restoresFrom_size, fun depth _ ↦ reads_zero depth⟩,
    ⟨Form.restoresFrom_size, fun depth _ ↦ reads_zero depth⟩,
    ⟨Form.restoresFrom_name hmeasure, fun _ _ ↦ ⟨Measure.characters.toTree, rfl⟩⟩, nofun⟩

/-- The usual sizings can be read. -/
theorem reads_usual (depth : Nat) (h : 1 ≤ depth) :
    form.read.Reads depth source ∧ form.read.Reads depth citation := by
  obtain ⟨d, rfl⟩ := Nat.exists_eq_add_of_le' h
  exact ⟨⟨source.toTree, rfl⟩, citation.toTree, rfl⟩

end Sizing

namespace Synthesis.Options

/-- The form of options. -/
def form : Form Options := ⟨record.read, toTree, fun _ ↦ []⟩

/-- The members of options. -/
def members : List (Member Options) :=
  [.always "response_mode" .required (.name Mode.ofName? Mode.name) mode
      (fun m o ↦ { o with mode := m }) .compact fun _ _ ↦ rfl,
    .always "max_context_chars" .required .size budget (fun n o ↦ { o with budget := n }) 8000
      fun _ _ ↦ rfl]

theorem laid : form.Laid record members where
  read := rfl
  slots := rfl
  tree _ := rfl
  numbers := by simp [members, Member.always, Form.size, Form.name]
  initial := by simp [members, Member.always, record, standard]
  nodup := by decide
  apart := by simp [members, Member.always, Member.Apart]
  ext a b h := by
    simp only [members, Member.always, List.forall_mem_cons] at h
    rcases a, b with ⟨⟨_, _⟩, ⟨_, _⟩⟩
    simp_all

theorem restoresFrom : form.RestoresFrom 1 := by
  refine laid.restoresFrom ?_
  simp only [members, List.forall_mem_cons]
  have hmode (m : Mode) : Mode.ofName? m.name = some m := by cases m <;> decide
  exact ⟨⟨Form.restoresFrom_name hmode, fun _ _ ↦ ⟨Mode.compact.toTree, rfl⟩⟩,
    ⟨Form.restoresFrom_size, fun _ _ ↦ ⟨.ofNat 8000, rfl⟩⟩, nofun⟩

end Synthesis.Options

namespace Reporting

/-- The form of the way of reporting. -/
def form : Form Reporting := ⟨record.read, toTree, fun _ ↦ []⟩

/-- The members of the way of reporting. -/
def members : List (Member Reporting) :=
  [.always "log_level" .required .string level (fun s r ↦ { r with level := s }) "info"
      fun _ _ ↦ rfl,
    .always "json_logging" .required .bool structured (fun b r ↦ { r with structured := b }) false
      fun _ _ ↦ rfl,
    .always "service_name" .required .string service (fun s r ↦ { r with service := s })
      "citeforge" fun _ _ ↦ rfl]

theorem laid : form.Laid record members where
  read := rfl
  slots := rfl
  tree _ := rfl
  numbers := by simp [members, Member.always, Form.string, Form.bool]
  initial := by simp [members, Member.always, record, standard]
  nodup := by decide
  apart := by simp [members, Member.always, Member.Apart]
  ext a b h := by
    simp only [members, Member.always, List.forall_mem_cons] at h
    rcases a, b with ⟨⟨_, _, _⟩, ⟨_, _, _⟩⟩
    simp_all

theorem restoresFrom : form.RestoresFrom 1 := by
  refine laid.restoresFrom ?_
  simp only [members, List.forall_mem_cons]
  exact ⟨⟨Form.restoresFrom_string, fun depth _ ↦ reads_string depth "info"⟩,
    ⟨Form.restoresFrom_bool, fun _ _ ↦ ⟨.bool false, rfl⟩⟩,
    ⟨Form.restoresFrom_string, fun depth _ ↦ reads_string depth "citeforge"⟩, nofun⟩

end Reporting

namespace Settings

/-- The form of settings. -/
def form : Form Settings := ⟨record.read, toTree, fun _ ↦ []⟩

/-- The members of settings, which are their sections. -/
def members : List (Member Settings) :=
  [.always "source" .required Sizing.form source (fun x s ↦ { s with source := x }) .source
      fun _ _ ↦ rfl,
    .always "citation" .required Sizing.form citation (fun x s ↦ { s with citation := x })
      .citation fun _ _ ↦ rfl,
    .always "synthesis" .required Synthesis.Options.form synthesis
      (fun x s ↦ { s with synthesis := x }) .standard fun _ _ ↦ rfl,
    .always "observability" .required Reporting.form reporting
      (fun x s ↦ { s with reporting := x }) .standard fun _ _ ↦ rfl]

theorem laid : form.Laid record members where
  read := rfl
  slots := rfl
  tree _ := rfl
  numbers := by simp [members, Member.always, Sizing.form, Synthesis.Options.form, Reporting.form]
  initial := by simp [members, Member.always, record, standard]
  nodup := by decide
  apart := by simp [members, Member.always, Member.Apart]
  ext a b h := by
    simp only [members, Member.always, List.forall_mem_cons] at h
    rcases a, b with ⟨⟨_, _, _, _⟩, ⟨_, _, _, _⟩⟩
    simp_all

theorem restoresFrom : form.RestoresFrom 2 := by
  refine laid.restoresFrom ?_
  simp only [members, List.forall_mem_cons]
  have hsynthesis (depth : Nat) (h : 1 ≤ depth) :
      Synthesis.Options.form.read.Reads depth .standard := by
    obtain ⟨d, rfl⟩ := Nat.exists_eq_add_of_le' h
    exact ⟨Synthesis.Options.standard.toTree, rfl⟩
  have hreporting (depth : Nat) (h : 1 ≤ depth) : Reporting.form.read.Reads depth .standard := by
    obtain ⟨d, rfl⟩ := Nat.exists_eq_add_of_le' h
    exact ⟨Reporting.standard.toTree, rfl⟩
  exact ⟨⟨Sizing.restoresFrom, fun depth h ↦ (Sizing.reads_usual depth h).1⟩,
    ⟨Sizing.restoresFrom, fun depth h ↦ (Sizing.reads_usual depth h).2⟩,
    ⟨Synthesis.Options.restoresFrom, hsynthesis⟩, ⟨Reporting.restoresFrom, hreporting⟩, nofun⟩

end Settings

/-! ### Round trips -/

namespace Json

/-- **Values make the round trip**: whatever is read from some text is read again from the text that
is written for it. It is taken for granted that finite floating-point numbers are read back from
their own texts. Those of 32 bits have to be finite. -/
def RoundTrips {α : Type} (r : Reader α) (tree : α → Tree) (numbers : α → List Floating) : Prop :=
  ∀ s v, r.run s = .ok v → (∀ x, .single x ∈ numbers v → x.IsFinite) →
    (∀ n ∈ numbers v, n.number.IsFinite → n.ReadsBack) → r.run (tree v).text = .ok v

theorem Form.RestoresFrom.roundTrip {α : Type} {F : Form α} {k : Nat} (h : F.RestoresFrom k)
    (hk : k ≤ depthLimit) : RoundTrips F.read F.tree F.numbers := by
  intro s v hread hfinite hback
  have hfaithful : ∀ n ∈ F.numbers v, n.Faithful := fun n hn ↦
    ⟨fun x hx ↦ hfinite x (hx ▸ hn), hback n hn⟩
  obtain ⟨hrestored, hwhole⟩ := h depthLimit hk v (Reader.reads_of_run hread) hfaithful
  exact (Reader.run_text F.read hwhole).trans hrestored

/-- The content of a field of an object. -/
def Tree.field? (k : String) : Tree → Option Tree
  | .object fields _ => (fields.find? fun f ↦ f.1 == some k).map Prod.snd
  | _ => none

/-- **Nodes with their scores, positions, queries, responses, documents, sizings and settings make
the round trip.** A response without an answer and a document without a name are written with a
`null` in its place. -/
theorem roundTrips :
    RoundTrips ScoredNode.record.read ScoredNode.toTree ScoredNode.numbers ∧
    RoundTrips Position.record.read Position.toTree (fun _ ↦ []) ∧
    RoundTrips Query.record.read Query.toTree Query.numbers ∧
    RoundTrips Response.record.read Response.toTree Response.numbers ∧
    RoundTrips Document.record.read Document.toTree Document.numbers ∧
    RoundTrips Sizing.record.read Sizing.toTree (fun _ ↦ []) ∧
    RoundTrips Settings.record.read Settings.toTree (fun _ ↦ []) ∧
    (∀ r : Response, r.answer = none → r.toTree.field? "response" = some .null) ∧
    ∀ d : Document, d.id = none → d.toTree.field? "doc_id" = some .null := by
  refine ⟨ScoredNode.restoresFrom.roundTrip (by decide),
    Position.restoresFrom.roundTrip (by decide), Query.restoresFrom.roundTrip (by decide),
    Response.restoresFrom.roundTrip (by decide),
    Document.restoresFrom.roundTrip (by decide), Sizing.restoresFrom.roundTrip (by decide),
    Settings.restoresFrom.roundTrip (by decide), ?_, ?_⟩
  · rintro ⟨answer, sources, metadata⟩ rfl
    rfl
  · rintro ⟨id, text, metadata⟩ rfl
    rfl

/-- A response in the form of an array. Its node has metadata that nest, a field that is unknown, an
empty dictionary of links and a score. -/
theorem roundTrips_array :
    let s := "[null, [[\x7b\"metadata\": \x7b\"b\": [-7, 2.5, \x7b\x7d], \"a\": null\x7d, " ++
      "\"more\": [\"\"], \"text\": \"a\\u000ab\", \"relationships\": \x7b\x7d\x7d, 0.1]]]"
    let written := "\x7b\"response\":null,\"source_nodes\":[\x7b\"node\":\x7b\"text\":\"a\\nb\"," ++
      "\"metadata\":\x7b\"a\":null,\"b\":[-7,2.5,\x7b\x7d]\x7d,\"relationships\":\x7b\x7d\x7d," ++
      "\"score\":0.1\x7d]\x7d"
    ∃ v, Response.record.read.run s = .ok v ∧
      v.numbers = [.single (.finite false 13421773 (-27)),
        .double (.finite false 5629499534213120 (-51))] ∧
      v.toTree.text = written ∧ Response.record.read.run written = .ok v := by
  intro s written
  have hread : (Response.record.read.run s).toOption.map (fun v ↦ (v.numbers, v.toTree.text)) =
      some ([.single (.finite false 13421773 (-27)),
        .double (.finite false 5629499534213120 (-51))], written) := by decide +kernel
  rcases hs : Response.record.read.run s with f | v
  · rw [hs] at hread
    cases hread
  · rw [hs] at hread
    obtain ⟨hnumbers, htext⟩ := Prod.mk.inj (Option.some.inj hread)
    have hback := roundTrips.2.2.2.1 s v hs (fun x hx ↦ ?_) fun n hn _ ↦ ?_
    · rw [htext] at hback
      exact ⟨v, rfl, hnumbers, htext, hback⟩
    · rw [hnumbers] at hx
      simp only [List.mem_cons, Floating.single.injEq, reduceCtorEq, List.not_mem_nil,
        or_false] at hx
      rw [hx]
      trivial
    · rw [hnumbers] at hn
      rcases List.mem_pair.1 hn with rfl | rfl
      · show Reader.single.run _ = .ok _
        decide +kernel
      · -- Its numeral is 2.5.
        exact Floating.readsBack_double (n := ⟨false, ['2'], ['5'], none⟩) (by decide +kernel)
          (by decide +kernel) (by decide +kernel)

end Json

end CitedAnswers
