import CitedAnswers.Response
import Mathlib.Data.List.Forall2

/-!
# The listing of sources

`Response.listing` shows the nodes that an answer rests on, a line each, with their texts cut down
to a length. `Response.listing_excerpts` says what is shown: every line names the document of its
node and shows an excerpt of its text (`Response.IsExcerpt`), which is the whole text as long as
that is short enough and a beginning with three dots behind otherwise. Lengths count characters,
never bytes.

The dots are not cut. So an excerpt keeps to the length unless that is below three and the text is
longer than it: then the excerpt is nothing but the dots, which are too long themselves
(`Response.not_exists_excerpt_of_length_zero`).
-/

namespace CitedAnswers.Response

/-! ### What a line shows -/

/-- **The document of a node**: the one it links to as its source, or the word `none`. -/
inductive IsDocument (n : ScoredNode) : String → Prop
  | linked {ls : Links} {d : String} (links : n.node.links = some ls)
    (document : ls.lookup .source = some d) : IsDocument n d
  | unlinked (links : ∀ ls, n.node.links = some ls → ls.lookup .source = none) :
    IsDocument n "none"

/-- **An excerpt of a text** for a length. -/
structure IsExcerpt (length : Nat) (text excerpt : String) : Prop where
  /-- A text that is short enough is shown as it is. -/
  whole : text.length ≤ length → excerpt = text
  /-- Of a longer one a beginning is shown, as long as it can be with the dots behind it. -/
  cut : length < text.length → ∃ start rest : String, text = start ++ rest ∧
    excerpt = start ++ "..." ∧ start.length = length - 3
  length_le : excerpt.length ≤ max length 3
  /-- The length is kept to unless it has no room for the dots of a text that is cut. -/
  length_le_iff : excerpt.length ≤ length ↔ text.length ≤ length ∨ 3 ≤ length

/-- **A line for a node**, with its document and an excerpt of its text. -/
def IsLine (length : Nat) (n : ScoredNode) (line : String) : Prop :=
  ∃ document excerpt, IsDocument n document ∧ IsExcerpt length n.text excerpt ∧
    line = "> Source (Doc id: " ++ document ++ "): " ++ excerpt

theorem isDocument_documentOf (n : ScoredNode) : IsDocument n (documentOf n) := by
  rw [documentOf]
  cases hlinks : n.node.links with
  | none => exact .unlinked (by simp [hlinks])
  | some ls =>
    cases hdocument : ls.lookup Relationship.source with
    | none =>
      rw [Option.getD_some, hdocument, Option.getD_none]
      refine .unlinked fun ls' hlinks' ↦ ?_
      obtain rfl : ls = ls' := Option.some.inj (hlinks.symm.trans hlinks')
      exact hdocument
    | some d =>
      rw [Option.getD_some, hdocument, Option.getD_some]
      exact .linked hlinks hdocument

/-- **Shortening a text makes an excerpt of it.** -/
theorem isExcerpt_shorten (length : Nat) (text : String) :
    IsExcerpt length text (String.ofList (shorten text.toList length)) := by
  have hlength : text.toList.length = text.length := String.length_toList
  have hdots : String.ofList ['.', '.', '.'] = "..." := rfl
  by_cases h : text.length ≤ length
  · have hshorten : String.ofList (shorten text.toList length) = text := by
      rw [shorten, if_pos (hlength ▸ h), String.ofList_toList]
    rw [hshorten]
    exact ⟨fun _ ↦ rfl, fun hlt ↦ absurd hlt (Nat.not_lt.2 h), Nat.le_trans h (Nat.le_max_left ..),
      iff_of_true h (.inl h)⟩
  · have hshorten : shorten text.toList length = text.toList.take (length - 3) ++ ['.', '.', '.'] :=
      if_neg (hlength ▸ h)
    have htake : (text.toList.take (length - 3)).length = length - 3 := by
      rw [List.length_take]
      omega
    have hexcerpt : (String.ofList (shorten text.toList length)).length = length - 3 + 3 := by
      rw [hshorten, String.length_ofList, List.length_append, htake]
      rfl
    refine ⟨fun hle ↦ absurd hle h, fun _ ↦ ?_, by omega, by omega⟩
    refine ⟨String.ofList (text.toList.take (length - 3)),
      String.ofList (text.toList.drop (length - 3)), ?_, ?_, ?_⟩
    · rw [← String.ofList_append, List.take_append_drop, String.ofList_toList]
    · rw [hshorten, String.ofList_append, hdots]
    · rw [String.length_ofList, htake]

theorem isLine_listingLine (length : Nat) (n : ScoredNode) :
    IsLine length n (String.ofList (listingLine length n)) := by
  refine ⟨documentOf n, String.ofList (shorten n.text.toList length), isDocument_documentOf n,
    isExcerpt_shorten length n.text, ?_⟩
  unfold listingLine
  simp only [String.ofList_append, String.ofList_toList]

/-! ### The listing -/

/-- **The listing shows a line for each node**, in their order and with a blank line between. -/
theorem listing_excerpts (r : Response) (length : Nat) :
    ∃ lines : List String, r.listing length = "\n\n".intercalate lines ∧
      List.Forall₂ (IsLine length) r.sources lines := by
  refine ⟨r.sources.map fun n ↦ String.ofList (listingLine length n), ?_, ?_⟩
  · refine String.toList_inj.1 ?_
    have hblank : "\n\n".toList = ['\n', '\n'] := rfl
    have hlines : r.sources.map (listingLine length) =
        r.sources.map (String.toList ∘ fun n ↦ String.ofList (listingLine length n)) :=
      List.map_congr_left fun n _ ↦ (String.toList_ofList ..).symm
    rw [listing, String.toList_ofList, String.toList_intercalate, List.map_map, hblank, hlines]
  · rw [List.forall₂_map_right_iff]
    exact List.forall₂_same.2 fun n _ ↦ isLine_listingLine length n

/-- A text cut down to no character at all is listed with three. -/
theorem not_exists_excerpt_of_length_zero :
    ¬ ∃ excerpt : String, excerpt.length ≤ 0 ∧
      (⟨none, [⟨⟨"rain", none, none, none⟩, none⟩], none⟩ : Response).listing 0 =
        "> Source (Doc id: none): " ++ excerpt := by
  have hlisting : (⟨none, [⟨⟨"rain", none, none, none⟩, none⟩], none⟩ : Response).listing 0 =
      "> Source (Doc id: none): " ++ "..." := by decide
  rintro ⟨excerpt, hlength, h⟩
  rw [hlisting] at h
  have hdots := congrArg String.length h
  rw [String.length_append, String.length_append] at hdots
  have hthree : "...".length = 3 := rfl
  omega

end CitedAnswers.Response
