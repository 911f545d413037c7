import CitedAnswers.Token.Piece
import CitedAnswers.Unicode.Bytes

/-!
# Counting tokens

A `Vocabulary` says how many tokens a piece of text has. The number of tokens of a text is the sum
over its pieces. A vocabulary may be given by a list of pieces, with all others encoded byte by
byte; then a text never has more tokens than bytes when no listed piece has.
-/

namespace CitedAnswers.Token

/-- The number of tokens of every piece of text. -/
structure Vocabulary where
  count : List Char → Nat

namespace Vocabulary

/-- The number of tokens of a text. -/
def size (v : Vocabulary) (cs : List Char) : Nat :=
  (Piece.split cs).foldr (fun p n ↦ v.count p + n) 0

/-- Pieces with a known number of tokens, grouped by that number. Any other piece has as many tokens
as bytes. -/
def ofGroups (groups : List (Nat × List String)) : Vocabulary where
  count piece :=
    match groups.find? fun g ↦ g.2.contains (String.ofList piece) with
    | some (n, _) => n
    | none => Unicode.byteCount piece

/-! ### Tokens and bytes -/

/-- No piece has more tokens than bytes. -/
def Sparing (v : Vocabulary) : Prop := ∀ piece, v.count piece ≤ Unicode.byteCount piece

/-- If no listed piece has more tokens than bytes, no piece has. -/
theorem sparing_ofGroups {groups : List (Nat × List String)}
    (h : ∀ g ∈ groups, ∀ p ∈ g.2, g.1 ≤ Unicode.byteCount p.toList) :
    (ofGroups groups).Sparing := by
  intro piece
  dsimp only [ofGroups]
  split
  · rename_i n listed hfind
    have hlisted : listed.contains (String.ofList piece) = true := by
      simpa using List.find?_some hfind
    have hle := h _ (List.mem_of_find?_eq_some hfind) _ (List.contains_iff_mem.1 hlisted)
    rwa [String.toList_ofList] at hle
  · exact Nat.le_refl _

/-- **A text has no more tokens than bytes** if no piece has. -/
theorem Sparing.size_le {v : Vocabulary} (h : v.Sparing) (cs : List Char) :
    v.size cs ≤ Unicode.byteCount cs := by
  have hpieces (ps : List (List Char)) :
      ps.foldr (fun p n ↦ v.count p + n) 0 ≤ Unicode.byteCount ps.flatten := by
    induction ps with
    | nil => exact Nat.le_refl _
    | cons p ps ih =>
      rw [List.foldr_cons, List.flatten_cons, Unicode.byteCount_append]
      exact Nat.add_le_add (h p) ih
  calc v.size cs
    _ ≤ Unicode.byteCount (Piece.split cs).flatten := hpieces _
    _ = Unicode.byteCount cs := by rw [Piece.flatten_split]

end Vocabulary

end CitedAnswers.Token
