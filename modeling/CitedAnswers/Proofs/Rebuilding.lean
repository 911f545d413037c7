import CitedAnswers.Json.Record
import CitedAnswers.Proofs.Spelling

/-!
# A tree is rebuilt from its text

The text of a tree without breaks is scanned and put together to that same tree, with nothing left
over (`Tree.ofText_text`). The two halves of reading are taken one after the other, both by
recursion on the tree: the text of a tree is scanned to its tokens (`Tree.scan_chars`), and from its
tokens the stack of open containers gets just that tree (`Tree.build_tokens`). What follows a tree
matters to the first half only, and there only because a number might go on.

`Tree.Whole` says which trees these are: no breaks, every container closed, every string one that
has a value, and numerals of a proper shape.
-/

namespace CitedAnswers.Json.Tree

/-! ### Whole trees and their tokens -/

mutual

/-- **A tree without breaks**, of which all is what JSON has. -/
def Whole : Tree → Prop
  | null | bool _ => True
  | number n => n.Proper
  | string s => s ≠ none
  | array items ending => ending = .closed ∧ WholeItems items
  | object fields ending => ending = .closed ∧ WholeFields fields
  | broken _ => False

/-- The items of an array are without breaks. -/
def WholeItems : List Tree → Prop
  | [] => True
  | t :: ts => Whole t ∧ WholeItems ts

/-- The fields of an object are without breaks. -/
def WholeFields : List (Option String × Tree) → Prop
  | [] => True
  | (k, t) :: fs => k ≠ none ∧ Whole t ∧ WholeFields fs

end

theorem wholeItems_iff {ts : List Tree} : WholeItems ts ↔ ∀ t ∈ ts, Whole t := by
  induction ts with
  | nil => simp [WholeItems]
  | cons t ts ih => simp [WholeItems, ih]

theorem wholeFields_iff {fs : List (Option String × Tree)} :
    WholeFields fs ↔ ∀ f ∈ fs, f.1 ≠ none ∧ Whole f.2 := by
  induction fs with
  | nil => simp [WholeFields]
  | cons f fs ih => simp [WholeFields, ih, and_assoc]

mutual

/-- The tokens of a tree without breaks. -/
def tokens : Tree → List Token
  | null => [.null]
  | bool b => [.bool b]
  | number n => [.number n]
  | string s => [.string s]
  | array items _ => .openArray :: tokensOfItems items ++ [.closeArray]
  | object fields _ => .openObject :: tokensOfFields fields ++ [.closeObject]
  | broken _ => []

/-- The tokens of the items of an array. -/
def tokensOfItems : List Tree → List Token
  | [] => []
  | [t] => tokens t
  | t :: ts => tokens t ++ .comma :: tokensOfItems ts

/-- The tokens of the fields of an object. -/
def tokensOfFields : List (Option String × Tree) → List Token
  | [] => []
  | [(k, t)] => .string k :: .colon :: tokens t
  | (k, t) :: fs => .string k :: .colon :: tokens t ++ .comma :: tokensOfFields fs

end

/-! ### From text to tokens -/

/-- A number ends at a comma or a closing bracket. -/
theorem apart_cons {c : Char} (h : c = ',' ∨ c = ']' ∨ c = '}') (cs : List Char) :
    Apart (c :: cs) := by
  rintro _ ⟨⟩
  rcases h with rfl | rfl | rfl <;> decide

mutual

/-- **The text of a tree is scanned to its tokens.** -/
theorem scan_chars : ∀ (t : Tree), t.Whole → ∀ {rest : List Char}, Apart rest →
    Token.scan (t.chars ++ rest) = t.tokens ++ Token.scan rest
  | null, _, _, _ => Token.scan_of_first rfl rfl
  | bool true, _, _, _ => Token.scan_of_first rfl rfl
  | bool false, _, _, _ => Token.scan_of_first rfl rfl
  | number _, h, _, hrest => Token.scan_text h hrest
  | string (some s), _, rest, _ => Token.scan_quote s rest
  | string none, h, _, _ => absurd rfl h
  | array items _, h, rest, _ => by
    have hitems := scan_charsOfItems items h.2 (apart_cons (.inr (.inl rfl)) rest)
    have hclose : Token.scan (']' :: rest) = .closeArray :: Token.scan rest :=
      Token.scan_of_first rfl rfl
    have hopen : Token.scan ('[' :: (charsOfItems items ++ ']' :: rest)) =
        .openArray :: Token.scan (charsOfItems items ++ ']' :: rest) :=
      Token.scan_of_first rfl rfl
    rw [hitems, hclose] at hopen
    simpa [chars, tokens] using hopen
  | object fields _, h, rest, _ => by
    have hfields := scan_charsOfFields fields h.2 (apart_cons (.inr (.inr rfl)) rest)
    have hclose : Token.scan ('\x7d' :: rest) = .closeObject :: Token.scan rest :=
      Token.scan_of_first rfl rfl
    have hopen : Token.scan ('\x7b' :: (charsOfFields fields ++ '\x7d' :: rest)) =
        .openObject :: Token.scan (charsOfFields fields ++ '\x7d' :: rest) :=
      Token.scan_of_first rfl rfl
    rw [hfields, hclose] at hopen
    simpa [chars, tokens] using hopen
  | broken _, h, _, _ => absurd h id

/-- The items of an array are scanned one after another. -/
theorem scan_charsOfItems : ∀ (ts : List Tree), WholeItems ts → ∀ {rest : List Char}, Apart rest →
    Token.scan (charsOfItems ts ++ rest) = tokensOfItems ts ++ Token.scan rest
  | [], _, _, _ => rfl
  | [t], h, _, hrest => scan_chars t h.1 hrest
  | t :: u :: ts, h, rest, hrest => by
    have hitems := scan_charsOfItems (u :: ts) h.2 hrest
    have hcomma : Token.scan (',' :: (charsOfItems (u :: ts) ++ rest)) =
        .comma :: Token.scan (charsOfItems (u :: ts) ++ rest) := Token.scan_of_first rfl rfl
    have hitem := scan_chars t h.1 (apart_cons (.inl rfl) (charsOfItems (u :: ts) ++ rest))
    rw [hcomma, hitems] at hitem
    simpa [charsOfItems, tokensOfItems] using hitem

/-- The fields of an object are scanned one after another, each key before its value. -/
theorem scan_charsOfFields : ∀ (fs : List (Option String × Tree)), WholeFields fs →
    ∀ {rest : List Char}, Apart rest →
    Token.scan (charsOfFields fs ++ rest) = tokensOfFields fs ++ Token.scan rest
  | [], _, _, _ => rfl
  | (none, _) :: _, h, _, _ => absurd rfl h.1
  | [(some k, t)], h, rest, hrest => by
    have hvalue := scan_chars t h.2.1 hrest
    have hkey := Token.scan_quote k (':' :: (t.chars ++ rest))
    have hcolon : Token.scan (':' :: (t.chars ++ rest)) = .colon :: Token.scan (t.chars ++ rest) :=
      Token.scan_of_first rfl rfl
    rw [hcolon, hvalue] at hkey
    simpa [charsOfFields, tokensOfFields] using hkey
  | (some k, t) :: f :: fs, h, rest, hrest => by
    have hfields := scan_charsOfFields (f :: fs) h.2.2 hrest
    have hcomma : Token.scan (',' :: (charsOfFields (f :: fs) ++ rest)) =
        .comma :: Token.scan (charsOfFields (f :: fs) ++ rest) := Token.scan_of_first rfl rfl
    have hvalue := scan_chars t h.2.1 (apart_cons (.inl rfl) (charsOfFields (f :: fs) ++ rest))
    have hkey := Token.scan_quote k (':' :: (t.chars ++ ',' :: (charsOfFields (f :: fs) ++ rest)))
    have hcolon : Token.scan (':' :: (t.chars ++ ',' :: (charsOfFields (f :: fs) ++ rest))) =
        .colon :: Token.scan (t.chars ++ ',' :: (charsOfFields (f :: fs) ++ rest)) :=
      Token.scan_of_first rfl rfl
    rw [hcolon, hvalue, hcomma, hfields] at hkey
    simpa [charsOfFields, tokensOfFields] using hkey

end

/-! ### From tokens to trees -/

/-- What becomes of the tokens that are left after a move. -/
def Move.resume (ts : List Token) : Move → Tree × Bool
  | stop v => (v, false)
  | finish v => (v, !ts.isEmpty)
  | go st place => build st place ts

theorem build_cons (st : List Frame) (place : Place) (t : Token) (ts : List Token) :
    build st place (t :: ts) = (Move.of st place t).resume ts := by
  rw [build]
  cases Move.of st place t <;> rfl

/-- After a key and its colon a value may stand. -/
theorem build_key {place : Place} (h : place = .key ∨ place = .firstKey)
    (before : List (Option String × Tree)) (key k : Option String) (st : List Frame)
    (ts : List Token) :
    build (.object before key :: st) place (.string k :: .colon :: ts) =
      build (.object before k :: st) .value ts := by
  have hstring : build (.object before key :: st) place (.string k :: .colon :: ts) =
      build (.object before k :: st) .colon (.colon :: ts) := by
    rw [build_cons]
    rcases h with rfl | rfl <;> rfl
  have hcolon : build (.object before k :: st) .colon (.colon :: ts) =
      build (.object before k :: st) .value ts := build_cons ..
  exact hstring.trans hcolon

mutual

/-- **The tokens of a tree are put together to that tree**, where a value may stand. -/
theorem build_tokens : ∀ (t : Tree), t.Whole → ∀ {place : Place},
    place = .value ∨ place = .firstItem → ∀ (st : List Frame) (ts : List Token),
    build st place (t.tokens ++ ts) = (Move.supply t st).resume ts
  | null, _, _, hplace, st, ts => by
    rcases hplace with rfl | rfl <;> exact build_cons st _ .null ts
  | bool b, _, _, hplace, st, ts => by
    rcases hplace with rfl | rfl <;> exact build_cons st _ (.bool b) ts
  | number n, _, _, hplace, st, ts => by
    rcases hplace with rfl | rfl <;> exact build_cons st _ (.number n) ts
  | string s, _, _, hplace, st, ts => by
    rcases hplace with rfl | rfl <;> exact build_cons st _ (.string s) ts
  | array items ending, h, place, hplace, st, ts => by
    obtain ⟨rfl, hitems⟩ := h
    have hopen : build st place ((array items .closed).tokens ++ ts) =
        build (.array [] :: st) .firstItem (tokensOfItems items ++ .closeArray :: ts) := by
      rw [tokens, List.cons_append, List.cons_append, List.append_assoc, build_cons]
      rcases hplace with rfl | rfl <;> rfl
    rw [hopen]
    rcases items with - | ⟨t, items⟩
    · exact build_cons (.array [] :: st) .firstItem .closeArray ts
    · exact build_tokensOfItems (t :: items) hitems (List.cons_ne_nil _ _) (.inr rfl) [] st ts
  | object fields ending, h, place, hplace, st, ts => by
    obtain ⟨rfl, hfields⟩ := h
    have hopen : build st place ((object fields .closed).tokens ++ ts) =
        build (.object [] none :: st) .firstKey (tokensOfFields fields ++ .closeObject :: ts) := by
      rw [tokens, List.cons_append, List.cons_append, List.append_assoc, build_cons]
      rcases hplace with rfl | rfl <;> rfl
    rw [hopen]
    rcases fields with - | ⟨f, fields⟩
    · exact build_cons (.object [] none :: st) .firstKey .closeObject ts
    · exact build_tokensOfFields (f :: fields) hfields (List.cons_ne_nil _ _) (.inr rfl) [] none st
        ts
  | broken _, h, _, _, _, _ => absurd h id

/-- The tokens of items and of the end of their array. -/
theorem build_tokensOfItems : ∀ (items : List Tree), WholeItems items → items ≠ [] →
    ∀ {place : Place}, place = .value ∨ place = .firstItem →
    ∀ (before : List Tree) (st : List Frame) (ts : List Token),
    build (.array before :: st) place (tokensOfItems items ++ .closeArray :: ts) =
      (Move.supply (.array (before.reverse ++ items) .closed) st).resume ts
  | [], _, h, _, _, _, _, _ => absurd rfl h
  | [t], h, _, _, hplace, before, st, ts => by
    have hitem := build_tokens t h.1 hplace (.array before :: st) (.closeArray :: ts)
    have hclose : build (.array (t :: before) :: st) .next (.closeArray :: ts) =
        (Move.supply (.array (t :: before).reverse .closed) st).resume ts := build_cons ..
    rw [List.reverse_cons] at hclose
    exact hitem.trans hclose
  | t :: u :: items, h, _, _, hplace, before, st, ts => by
    have hitem := build_tokens t h.1 hplace (.array before :: st)
      (.comma :: (tokensOfItems (u :: items) ++ .closeArray :: ts))
    have hcomma : build (.array (t :: before) :: st) .next
        (.comma :: (tokensOfItems (u :: items) ++ .closeArray :: ts)) =
        build (.array (t :: before) :: st) .value
          (tokensOfItems (u :: items) ++ .closeArray :: ts) := build_cons ..
    have hitems := build_tokensOfItems (u :: items) h.2 (List.cons_ne_nil _ _) (.inl rfl)
      (t :: before) st ts
    rw [List.reverse_cons, List.append_assoc] at hitems
    have htokens : tokensOfItems (t :: u :: items) ++ .closeArray :: ts =
        t.tokens ++ .comma :: (tokensOfItems (u :: items) ++ .closeArray :: ts) := by
      rw [tokensOfItems, List.append_assoc, List.cons_append]
      exact List.cons_ne_nil _ _
    rw [htokens]
    exact hitem.trans (hcomma.trans hitems)

/-- The tokens of fields and of the end of their object. -/
theorem build_tokensOfFields : ∀ (fields : List (Option String × Tree)), WholeFields fields →
    fields ≠ [] → ∀ {place : Place}, place = .key ∨ place = .firstKey →
    ∀ (before : List (Option String × Tree)) (key : Option String) (st : List Frame)
      (ts : List Token),
    build (.object before key :: st) place (tokensOfFields fields ++ .closeObject :: ts) =
      (Move.supply (.object (before.reverse ++ fields) .closed) st).resume ts
  | [], _, h, _, _, _, _, _, _ => absurd rfl h
  | [(k, t)], h, _, _, hplace, before, key, st, ts => by
    have hkey := build_key hplace before key k st (t.tokens ++ .closeObject :: ts)
    have hvalue := build_tokens t h.2.1 (.inl rfl) (.object before k :: st) (.closeObject :: ts)
    have hclose : build (.object ((k, t) :: before) none :: st) .next (.closeObject :: ts) =
        (Move.supply (.object ((k, t) :: before).reverse .closed) st).resume ts := build_cons ..
    rw [List.reverse_cons] at hclose
    exact hkey.trans (hvalue.trans hclose)
  | (k, t) :: f :: fields, h, _, _, hplace, before, key, st, ts => by
    have hkey := build_key hplace before key k st
      (t.tokens ++ .comma :: (tokensOfFields (f :: fields) ++ .closeObject :: ts))
    have hvalue := build_tokens t h.2.1 (.inl rfl) (.object before k :: st)
      (.comma :: (tokensOfFields (f :: fields) ++ .closeObject :: ts))
    have hcomma : build (.object ((k, t) :: before) none :: st) .next
        (.comma :: (tokensOfFields (f :: fields) ++ .closeObject :: ts)) =
        build (.object ((k, t) :: before) none :: st) .key
          (tokensOfFields (f :: fields) ++ .closeObject :: ts) := build_cons ..
    have hfields := build_tokensOfFields (f :: fields) h.2.2 (List.cons_ne_nil _ _) (.inl rfl)
      ((k, t) :: before) none st ts
    rw [List.reverse_cons, List.append_assoc] at hfields
    have htokens : tokensOfFields ((k, t) :: f :: fields) ++ .closeObject :: ts =
        .string k :: .colon ::
          (t.tokens ++ .comma :: (tokensOfFields (f :: fields) ++ .closeObject :: ts)) := by
      simp [tokensOfFields]
    rw [htokens]
    exact hkey.trans (hvalue.trans (hcomma.trans hfields))

end

/-- **A whole tree is read back from its text**, and nothing is left over. -/
theorem ofText_text {t : Tree} (h : t.Whole) : ofText t.text = (t, false) := by
  have hapart : Apart [] := nofun
  have hscan := scan_chars t h hapart
  have hnil : Token.scan [] = [] := by rw [Token.scan]
  rw [List.append_nil, hnil] at hscan
  have hbuild := build_tokens t h (.inl rfl) [] []
  rw [ofText, text, String.toList_ofList, hscan, ofTokens, hbuild]
  rfl

end CitedAnswers.Json.Tree
