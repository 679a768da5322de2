import CSyntax.Tree.Expr

/-!
# Describe — types in words

The description reads a type from the outside in: `pointer to function(int, char) returning void`.
It tells whether an array has a size but not which, and names a record or an enumeration by its
tag alone.
-/

namespace CSyntax

namespace RecordKind

def spelling : RecordKind → String
  | .struct => "struct"
  | .union => "union"

end RecordKind

namespace CType

/-- The name of a record or an enumeration, which need not have a tag. -/
def tagText (tag : Option String) : String :=
  tag.getD "<anonymous>"

mutual

def describe : CType → String
  | .named name => name
  | .pointer target => "pointer to " ++ target.describe
  | .array element (some _) => "array of " ++ element.describe
  | .array element none => "array of unknown size of " ++ element.describe
  | .function result parameters variadic =>
      let ellipsis := if variadic then ["..."] else []
      "function(" ++ ", ".intercalate (describeAll parameters ++ ellipsis) ++ ") returning " ++
        result.describe
  | .record kind tag _ => kind.spelling ++ " " ++ tagText tag
  | .enumeration tag _ => "enum " ++ tagText tag

def describeAll : List CType → List String
  | [] => []
  | type :: types => type.describe :: describeAll types

end

theorem describeAll_eq_map (types : List CType) : describeAll types = types.map describe := by
  induction types with
  | nil =>
      simp [describeAll]
  | cons type types ih =>
      simp [describeAll, ih]

end CType

end CSyntax
