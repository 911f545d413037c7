import CitedAnswers.Settings.Layer

/-!
# Settings from environment variables

A variable whose name begins with `APP__` sets the value of the rest of its name, in which two
underscores lead into a table. Its text is taken for a truth value, an integer or a floating-point
number if it can be.
-/

namespace CitedAnswers

/-- Environment variables and their texts. -/
abbrev Environment := List (String × String)

/-- Two underscores become a dot, from the left. -/
def dotted : List Char → List Char
  | '_' :: '_' :: cs => '.' :: dotted cs
  | c :: cs => c :: dotted cs
  | [] => []

/-- The value of a text. -/
def Setting.ofText (s : String) : Setting :=
  if lower s == "true" then .bool true
  else if lower s == "false" then .bool false
  else
    let fits (i : Int) : Bool := decide (-(Size.half : Int) ≤ i ∧ i < Size.half)
    match (Binary.readInt? s.toList).filter fits with
    | some i => .integer i
    | none =>
      match Binary.read? s.toList with
      | some x => .float x
      | none => .text s

namespace Environment

/-- The key that a variable sets, if it sets any. Names are the same in either case. -/
def key? (name : String) : Option String :=
  match (Setting.lower name).toList with
  | 'a' :: 'p' :: 'p' :: '_' :: '_' :: cs => some (String.ofList (dotted cs))
  | _ => none

/-- What the variables say. -/
def layer (env : Environment) : Layer :=
  env.filterMap fun (name, text) ↦ (key? name).map fun k ↦ (k, .ofText text)

end Environment

end CitedAnswers
