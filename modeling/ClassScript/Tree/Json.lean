import ClassScript.Json
import ClassScript.Tree.Decl

/-!
# Trees as JSON

The projection of a tree to JSON: one object a node, a `type` field where
there are several forms, null for what is absent.
-/

namespace ClassScript

/-- The field that tells the forms of a node apart. -/
def Json.tag (name : String) : String × Json := ("type", .string name)

/-- A position as JSON. -/
def Position.toJson (p : Position) : Json :=
  .object [("line", .count p.line), ("column", .count p.column), ("offset", .count p.offset)]

/-- A span as JSON. -/
def Span.toJson (s : Span) : Json :=
  .object [("start", s.start.toJson), ("end", s.stop.toJson)]

namespace TypeRef

mutual

/-- A type reference as JSON. -/
def toJson : TypeRef → Json
  | ⟨name, nullable, arguments, isArray, span⟩ =>
    .object
      [("name", .string name), ("nullable", .bool nullable),
       ("generic_args", .array (toJsonList arguments)), ("is_array", .bool isArray),
       ("span", span.toJson)]

@[inherit_doc toJson]
def toJsonList : List TypeRef → List Json
  | [] => []
  | t :: ts => t.toJson :: toJsonList ts

end

end TypeRef

/-- The value of a literal; an infinite number has no JSON form. -/
def Literal.valueJson : Literal → Json
  | .string value => .string value
  | .number value => .number value
  | .boolean value => .bool value
  | .null => .null

/-- The name of a literal kind in a tree listing. -/
def LiteralKind.name : LiteralKind → String
  | .string => "string"
  | .number => "number"
  | .boolean => "boolean"
  | .null => "null"

/-- The name of a binary operator in a tree listing. -/
def BinaryOp.name : BinaryOp → String
  | .add => "Add"
  | .subtract => "Subtract"
  | .multiply => "Multiply"
  | .divide => "Divide"
  | .modulo => "Modulo"
  | .equal => "Equal"
  | .notEqual => "NotEqual"
  | .less => "Less"
  | .lessEqual => "LessEqual"
  | .greater => "Greater"
  | .greaterEqual => "GreaterEqual"
  | .and => "And"
  | .or => "Or"
  | .coalesce => "Coalesce"

/-- The name of a unary operator in a tree listing. -/
def UnaryOp.name : UnaryOp → String
  | .not => "Not"
  | .negate => "Negate"

/-- The name of an update operator in a tree listing. -/
def UpdateOp.name : UpdateOp → String
  | .increment => "Increment"
  | .decrement => "Decrement"

/-- The name of an assignment operator in a tree listing. -/
def AssignOp.name : AssignOp → String
  | .assign => "Assign"
  | .add => "AddAssign"
  | .subtract => "SubtractAssign"
  | .multiply => "MultiplyAssign"
  | .divide => "DivideAssign"

/-- The name of an unsupported statement in a tree listing. -/
def Unsupported.name : Unsupported → String
  | .ifElse => "If"
  | .whileLoop => "While"
  | .forLoop => "For"

namespace Expr

/-- The name of an expression's form. -/
def formName : Expr → String
  | .identifier .. => "Identifier"
  | .literal .. => "Literal"
  | .binary .. => "Binary"
  | .unary .. => "Unary"
  | .update .. => "Update"
  | .assign .. => "Assignment"
  | .call .. => "Call"
  | .member .. | .index .. => "MemberAccess"
  | .this .. => "This"
  | .base .. => "Base"
  | .create .. => "ObjectCreation"
  | .hostCall .. => "HostCall"
  | .hostSet .. => "HostPropertySet"
  | .domCreate .. => "DomConstruct"
  | .domProperty .. => "DomPropertyAccess"
  | .domCall .. => "DomMethodCall"

/-- A name that stands where an expression may stand. -/
def nameJson (name : String) (span : Span) : Json :=
  .object [Json.tag "Identifier", ("name", .string name), ("span", span.toJson)]

mutual

/-- An expression as JSON. -/
def toJson : Expr → Json
  | .identifier name span => nameJson name span
  | .literal value span =>
    .object
      [Json.tag "Literal", ("value", value.valueJson), ("literal_kind", .string value.kind.name),
       ("span", span.toJson)]
  | .binary op left right span =>
    .object
      [Json.tag "Binary", ("left", left.toJson), ("operator", .string op.name),
       ("right", right.toJson), ("span", span.toJson)]
  | .unary op operand span =>
    .object
      [Json.tag "Unary", ("operator", .string op.name), ("operand", operand.toJson),
       ("span", span.toJson)]
  | .update op operand span =>
    .object
      [Json.tag "Update", ("operator", .string op.name), ("operand", operand.toJson),
       ("span", span.toJson)]
  | .assign op target value span =>
    .object
      [Json.tag "Assignment", ("left", target.toJson), ("operator", .string op.name),
       ("right", value.toJson), ("span", span.toJson)]
  | .call callee arguments span =>
    .object
      [Json.tag "Call", ("callee", callee.toJson), ("arguments", .array (toJsonList arguments)),
       ("span", span.toJson)]
  | .member object name nameSpan span =>
    .object
      [Json.tag "MemberAccess", ("object", object.toJson), ("property", nameJson name nameSpan),
       ("computed", .bool false), ("span", span.toJson)]
  | .index object key span =>
    .object
      [Json.tag "MemberAccess", ("object", object.toJson), ("property", key.toJson),
       ("computed", .bool true), ("span", span.toJson)]
  | .this span => .object [Json.tag "This", ("span", span.toJson)]
  | .base span => .object [Json.tag "Base", ("span", span.toJson)]
  | .create type arguments span =>
    .object
      [Json.tag "ObjectCreation", ("type_name", type.toJson),
       ("arguments", .array (toJsonList arguments)), ("span", span.toJson)]
  | .hostCall path arguments span =>
    .object
      [Json.tag "HostCall", ("path", .string path), ("arguments", .array (toJsonList arguments)),
       ("span", span.toJson)]
  | .hostSet object property value span =>
    .object
      [Json.tag "HostPropertySet", ("object", object.toJson), ("property", property.toJson),
       ("value", value.toJson), ("span", span.toJson)]
  | .domCreate element arguments span =>
    .object
      [Json.tag "DomConstruct", ("element_name", .string element),
       ("arguments", .array (toJsonList arguments)), ("span", span.toJson)]
  | .domProperty object property span =>
    .object
      [Json.tag "DomPropertyAccess", ("object", object.toJson), ("property", .string property),
       ("span", span.toJson)]
  | .domCall object method arguments span =>
    .object
      [Json.tag "DomMethodCall", ("object", object.toJson), ("method", .string method),
       ("arguments", .array (toJsonList arguments)), ("span", span.toJson)]

@[inherit_doc toJson]
def toJsonList : List Expr → List Json
  | [] => []
  | e :: es => e.toJson :: toJsonList es

end

end Expr

namespace Stmt

mutual

/-- A statement as JSON. -/
def toJson : Stmt → Json
  | .block body span =>
    .object [Json.tag "Block", ("body", .array (toJsonList body)), ("span", span.toJson)]
  | .expression e span =>
    .object [Json.tag "Expression", ("expression", e.toJson), ("span", span.toJson)]
  | .variable type name value span =>
    .object
      [Json.tag "VariableDecl", ("var_type", type.toJson), ("identifier", .string name),
       ("assigned_value", Json.ofOption Expr.toJson value), ("span", span.toJson)]
  | .return value span =>
    .object [Json.tag "Return", ("value", Json.ofOption Expr.toJson value), ("span", span.toJson)]
  | .unsupported construct span =>
    .object [Json.tag "Unsupported", ("construct", .string construct.name), ("span", span.toJson)]

@[inherit_doc toJson]
def toJsonList : List Stmt → List Json
  | [] => []
  | s :: ss => s.toJson :: toJsonList ss

end

end Stmt

/-- A body as JSON; unlike a block statement it needs no tag. -/
def Block.toJson (b : Block) : Json :=
  .object [("body", .array (Stmt.toJsonList b.body)), ("span", b.span.toJson)]

/-- The word for an accessibility. -/
def Accessibility.name : Accessibility → String
  | .publicAccess => "public"
  | .privateAccess => "private"
  | .protectedAccess => "protected"
  | .internalAccess => "internal"

/-- A parameter as JSON. -/
def Parameter.toJson (p : Parameter) : Json :=
  .object
    [("name", .string p.name), ("param_type", p.type.toJson),
     ("default_value", Json.ofOption Expr.toJson p.defaultValue), ("span", p.span.toJson)]

/-- The name of a chained constructor in a tree listing. -/
def ChainTarget.name : ChainTarget → String
  | .base => "Base"
  | .this => "This"

/-- The call to another constructor as JSON. -/
def ConstructorChain.toJson (c : ConstructorChain) : Json :=
  .object
    [("target", .string c.target.name), ("arguments", .array (Expr.toJsonList c.arguments)),
     ("span", c.span.toJson)]

/-- The name of a kind of member. -/
def MemberKind.name : MemberKind → String
  | .method => "Method"
  | .property => "Property"
  | .field => "Field"
  | .constructor => "Constructor"

/-- A method as JSON. -/
def Method.toJson (m : Method) : Json :=
  .object
    [Json.tag "Method", ("name", .string m.name), ("return_type", m.returnType.toJson),
     ("parameters", .array (m.parameters.map Parameter.toJson)),
     ("body", Json.ofOption Block.toJson m.body), ("accessibility", .string m.accessibility.name),
     ("is_static", .bool m.isStatic), ("is_virtual", .bool m.isVirtual),
     ("is_override", .bool m.isOverride), ("is_abstract", .bool m.isAbstract),
     ("span", m.span.toJson)]

/-- A property as JSON. -/
def Property.toJson (p : Property) : Json :=
  .object
    [Json.tag "Property", ("name", .string p.name), ("property_type", p.type.toJson),
     ("has_getter", .bool p.hasGetter), ("has_setter", .bool p.hasSetter),
     ("initializer", Json.ofOption Expr.toJson p.initializer),
     ("accessibility", .string p.accessibility.name),
     ("is_static", .bool p.isStatic), ("is_virtual", .bool p.isVirtual),
     ("is_override", .bool p.isOverride), ("is_abstract", .bool p.isAbstract),
     ("span", p.span.toJson)]

/-- A field as JSON. -/
def Field.toJson (f : Field) : Json :=
  .object
    [Json.tag "Field", ("name", .string f.name), ("field_type", f.type.toJson),
     ("initializer", Json.ofOption Expr.toJson f.initializer),
     ("accessibility", .string f.accessibility.name),
     ("is_static", .bool f.isStatic), ("is_readonly", .bool f.isReadonly),
     ("is_const", .bool f.isConst), ("span", f.span.toJson)]

/-- A constructor as JSON. -/
def Constructor.toJson (c : Constructor) : Json :=
  .object
    [Json.tag "Constructor", ("name", .string c.name),
     ("parameters", .array (c.parameters.map Parameter.toJson)),
     ("initializer", Json.ofOption ConstructorChain.toJson c.chain), ("body", c.body.toJson),
     ("accessibility", .string c.accessibility.name), ("is_static", .bool c.isStatic),
     ("span", c.span.toJson)]

/-- A member as JSON, tagged with its kind. -/
def Member.toJson : Member → Json
  | .method m => m.toJson
  | .property p => p.toJson
  | .field f => f.toJson
  | .constructor c => c.toJson

/-- A class as JSON. -/
def ClassDecl.toJson (c : ClassDecl) : Json :=
  .object
    [("name", .string c.name), ("base_class", Json.ofOption Json.string c.baseClass),
     ("interfaces", .array (c.interfaces.map Json.string)),
     ("accessibility", .string c.accessibility.name), ("is_static", .bool c.isStatic),
     ("is_abstract", .bool c.isAbstract), ("is_sealed", .bool c.isSealed),
     ("members", .array (c.members.map Member.toJson)), ("span", c.span.toJson)]

/-- A compilation unit as JSON. -/
def CompilationUnit.toJson (u : CompilationUnit) : Json :=
  .object
    [("imports", .array (u.imports.map Json.string)),
     ("namespace", Json.ofOption Json.string u.namespaceName),
     ("classes", .array (u.classes.map ClassDecl.toJson)), ("span", u.span.toJson)]

end ClassScript
