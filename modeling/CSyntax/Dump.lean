import CSyntax.Decimal.Shortest
import CSyntax.Text.Quoted
import CSyntax.Tree.Unit

/-!
# Dump — the whole tree as indented text

Every node of a tree is written with its name, its parts on lines of their own, four columns
further right and with a comma behind each.

* `Dump` is such text before it is laid out, and `Dump.render` lays it out;
* `TranslationUnit.dump` is the text of a unit.
-/

namespace CSyntax

/-! ## Layout -/

inductive Dump where
  | leaf (text : String)
  /-- Named parts in braces. -/
  | fields (name : String) (parts : List (String × Dump))
  /-- Parts in parentheses. -/
  | items (name : String) (parts : List Dump)
  | list (parts : List Dump)

namespace Dump

mutual

/-- The text of a dump whose lines after the first are to stand behind `indent`. -/
def render (indent : String) : Dump → String
  | .leaf text => text
  | .fields name parts =>
      name ++ " \x7b\n" ++ renderFields (indent ++ "    ") parts ++ indent ++ "\x7d"
  | .items name parts => name ++ "(\n" ++ renderItems (indent ++ "    ") parts ++ indent ++ ")"
  | .list [] => "[]"
  | .list (part :: parts) =>
      "[\n" ++ renderItems (indent ++ "    ") (part :: parts) ++ indent ++ "]"

def renderFields (indent : String) : List (String × Dump) → String
  | [] => ""
  | (name, part) :: parts =>
      indent ++ name ++ ": " ++ part.render indent ++ ",\n" ++ renderFields indent parts

def renderItems (indent : String) : List Dump → String
  | [] => ""
  | part :: parts => indent ++ part.render indent ++ ",\n" ++ renderItems indent parts

end

/-! ## Values of simple kinds -/

def text (s : String) : Dump :=
  .leaf (Text.quoteString s)

def number (n : Nat) : Dump :=
  .leaf (toString n)

def truth (b : Bool) : Dump :=
  .leaf (if b then "true" else "false")

def option {α : Type} (f : α → Dump) : Option α → Dump
  | some a => .items "Some" [f a]
  | none => .leaf "None"

/-- Numbers from `10 ^ -4` up to `10 ^ 16` are written without an exponent. -/
def constantLayout : Decimal.Layout :=
  { least := -3, greatest := 16 }

def ofPosition (p : Position) : Dump :=
  .fields "TextPosition"
    [("line", number p.line), ("col", number p.column), ("offset", number p.offset),
      ("filename", option text p.file)]

/-- A node with its kind and its position. -/
def located (name : String) (kind : Dump) (p : Position) : Dump :=
  .fields name [("kind", kind), ("pos", ofPosition p)]

end Dump

/-! ## Names -/

def UnaryOperator.title : UnaryOperator → String
  | .dereference => "Deref"
  | .addressOf => "Addr"
  | .negate => "Neg"
  | .plus => "Plus"
  | .logicalNot => "LNot"
  | .bitwiseNot => "BNot"
  | .preIncrement => "PreInc"
  | .preDecrement => "PreDec"
  | .postIncrement => "PostInc"
  | .postDecrement => "PostDec"

def BinaryOperator.title : BinaryOperator → String
  | .add => "Add"
  | .subtract => "Sub"
  | .multiply => "Mult"
  | .divide => "Div"
  | .remainder => "Mod"
  | .shiftLeft => "Shl"
  | .shiftRight => "Shr"
  | .less => "Lt"
  | .greater => "Gt"
  | .lessEqual => "Le"
  | .greaterEqual => "Ge"
  | .equal => "Eq"
  | .notEqual => "Ne"
  | .bitwiseAnd => "BAnd"
  | .bitwiseXor => "BXor"
  | .bitwiseOr => "BOr"
  | .logicalAnd => "LAnd"
  | .logicalOr => "LOr"
  | .comma => "Comma"

def StorageClass.title : StorageClass → String
  | .external => "Extern"
  | .static => "Static"
  | .auto => "Auto"
  | .register => "Register"

def RecordKind.title : RecordKind → String
  | .struct => "Struct"
  | .union => "Union"

/-! ## Types and expressions -/

namespace Dump

mutual

def ofType : CType → Dump
  | .named name => .items "Named" [text name]
  | .pointer target => .items "Pointer" [ofType target]
  | .array element size => .items "Array" [ofType element, ofExprOption size]
  | .function result parameters variadic =>
      .fields "Function"
        [("returns", ofType result), ("params", .list (ofTypes parameters)),
          ("variadic", truth variadic)]
  | .record kind tag members =>
      .fields "Record"
        [("kind", .leaf kind.title), ("tag", option text tag), ("fields", ofMembersOption members)]
  | .enumeration tag enumerators =>
      .fields "Enum"
        [("tag", option text tag), ("enumerators", ofEnumeratorsOption enumerators)]

def ofTypes : List CType → List Dump
  | [] => []
  | type :: types => ofType type :: ofTypes types

def ofMember : Member → Dump
  | ⟨name, type⟩ => .fields "Field" [("name", text name), ("ty", ofType type)]

def ofMembers : List Member → List Dump
  | [] => []
  | member :: members => ofMember member :: ofMembers members

def ofMembersOption : Option (List Member) → Dump
  | some members => .items "Some" [.list (ofMembers members)]
  | none => .leaf "None"

def ofEnumerator : Enumerator → Dump
  | ⟨name, value⟩ => .fields "Enumerator" [("name", text name), ("value", ofExprOption value)]

def ofEnumerators : List Enumerator → List Dump
  | [] => []
  | enumerator :: enumerators => ofEnumerator enumerator :: ofEnumerators enumerators

def ofEnumeratorsOption : Option (List Enumerator) → Dump
  | some enumerators => .items "Some" [.list (ofEnumerators enumerators)]
  | none => .leaf "None"

def ofExpr : Expr → Dump
  | .identifier p name => located "Expr" (.items "Ident" [text name]) p
  | .integer p value => located "Expr" (.items "Int" [number value.toNat]) p
  | .floating p value => located "Expr" (.items "Float" [.leaf (constantLayout.write value)]) p
  | .character p s => located "Expr" (.items "Char" [text s]) p
  | .string p s => located "Expr" (.items "Str" [text s]) p
  | .call p callee arguments =>
      located "Expr"
        (.fields "Call" [("callee", ofExpr callee), ("args", .list (ofExprs arguments))]) p
  | .unary p operator operand =>
      located "Expr"
        (.fields "Unary" [("op", .leaf operator.title), ("operand", ofExpr operand)]) p
  | .binary p operator left right =>
      located "Expr"
        (.fields "Binary"
          [("op", .leaf operator.title), ("lhs", ofExpr left), ("rhs", ofExpr right)]) p
  | .index p array subscript =>
      located "Expr" (.fields "Index" [("array", ofExpr array), ("index", ofExpr subscript)]) p
  | .member p base name arrow =>
      located "Expr"
        (.fields "Member"
          [("base", ofExpr base), ("field", text name), ("arrow", truth arrow)]) p
  | .assign p operator target value =>
      located "Expr"
        (.fields "Assign"
          [("op", option (fun op => .leaf op.title) operator), ("target", ofExpr target),
            ("value", ofExpr value)]) p
  | .conditional p condition whenTrue whenFalse =>
      located "Expr"
        (.fields "Conditional"
          [("cond", ofExpr condition), ("then", ofExpr whenTrue), ("els", ofExpr whenFalse)]) p
  | .cast p type operand =>
      located "Expr" (.fields "Cast" [("ty", ofType type), ("expr", ofExpr operand)]) p
  | .sizeofType p type => located "Expr" (.items "SizeofType" [ofType type]) p
  | .sizeofExpr p operand => located "Expr" (.items "SizeofExpr" [ofExpr operand]) p
  | .initializerList p values => located "Expr" (.items "InitList" [.list (ofExprs values)]) p

def ofExprs : List Expr → List Dump
  | [] => []
  | value :: values => ofExpr value :: ofExprs values

def ofExprOption : Option Expr → Dump
  | some value => .items "Some" [ofExpr value]
  | none => .leaf "None"

end

/-! ## Declarations and statements -/

def ofStorage (storage : Option StorageClass) : Dump :=
  option (fun s => .leaf s.title) storage

def ofDeclaration (d : Declaration) : Dump :=
  .fields "Declaration"
    [("name", text d.name), ("ty", ofType d.type), ("init", ofExprOption d.initial),
      ("is_typedef", truth d.isTypedef), ("storage", ofStorage d.storage),
      ("qualifiers",
        .fields "Qualifiers"
          [("is_const", truth d.qualifiers.const), ("is_volatile", truth d.qualifiers.volatile)]),
      ("pos", ofPosition d.position)]

def ofGroup (group : DeclarationGroup) : Dump :=
  .fields "DeclGroup"
    [("base", ofType group.base), ("decls", .list (group.declarations.map ofDeclaration)),
      ("pos", ofPosition group.position)]

def ofForStart : ForStart → Dump
  | .declaration group => .items "Decl" [ofGroup group]
  | .expression value => .items "Expr" [ofExpr value]

mutual

def ofStatement : Statement → Dump
  | .block p body => located "Stmt" (.items "Block" [.list (ofStatements body)]) p
  | .declaration p group => located "Stmt" (.items "Declaration" [ofGroup group]) p
  | .expression p value => located "Stmt" (.items "Expr" [ofExpr value]) p
  | .if p condition whenTrue whenFalse =>
      located "Stmt"
        (.fields "If"
          [("cond", ofExpr condition), ("then", ofStatement whenTrue),
            ("els", ofStatementOption whenFalse)]) p
  | .while p condition body =>
      located "Stmt" (.fields "While" [("cond", ofExpr condition), ("body", ofStatement body)]) p
  | .doWhile p body condition =>
      located "Stmt" (.fields "DoWhile" [("body", ofStatement body), ("cond", ofExpr condition)]) p
  | .for p start condition step body =>
      located "Stmt"
        (.fields "For"
          [("init", option ofForStart start), ("cond", ofExprOption condition),
            ("step", ofExprOption step), ("body", ofStatement body)]) p
  | .switch p subject body =>
      located "Stmt" (.fields "Switch" [("cond", ofExpr subject), ("body", ofStatement body)]) p
  | .case p value body =>
      located "Stmt" (.fields "Case" [("value", ofExpr value), ("body", ofStatement body)]) p
  | .default p body => located "Stmt" (.items "Default" [ofStatement body]) p
  | .label p name body =>
      located "Stmt" (.fields "Label" [("name", text name), ("body", ofStatement body)]) p
  | .goto p name => located "Stmt" (.items "Goto" [text name]) p
  | .break p => located "Stmt" (.leaf "Break") p
  | .continue p => located "Stmt" (.leaf "Continue") p
  | .return p value => located "Stmt" (.items "Return" [ofExprOption value]) p
  | .empty p => located "Stmt" (.leaf "Empty") p

def ofStatements : List Statement → List Dump
  | [] => []
  | statement :: statements => ofStatement statement :: ofStatements statements

def ofStatementOption : Option Statement → Dump
  | some statement => .items "Some" [ofStatement statement]
  | none => .leaf "None"

end

def ofParameter (parameter : Parameter) : Dump :=
  .fields "Param"
    [("name", option text parameter.name), ("ty", ofType parameter.type),
      ("pos", ofPosition parameter.position)]

def ofFunction (f : FunctionDefinition) : Dump :=
  .fields "FunctionDef"
    [("name", text f.name), ("ty", ofType f.type), ("params", .list (f.parameters.map ofParameter)),
      ("body", .list (ofStatements f.body)), ("storage", ofStorage f.storage),
      ("pos", ofPosition f.position)]

def ofExternal : ExternalDeclaration → Dump
  | .declaration group => .items "Declaration" [ofGroup group]
  | .function definition => .items "Function" [ofFunction definition]

def ofUnit (unit : TranslationUnit) : Dump :=
  .fields "TranslationUnit" [("decls", .list (unit.declarations.map ofExternal))]

end Dump

def TranslationUnit.dump (unit : TranslationUnit) : String :=
  (Dump.ofUnit unit).render ""

end CSyntax
