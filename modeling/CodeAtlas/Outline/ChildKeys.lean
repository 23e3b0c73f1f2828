import CodeAtlas.Json.Basic

/-!
# Child keys

A script's syntax tree does not say which fields of a node hold children. The parser that made the
tree gives a table of them: for every type of node the fields to visit, in order. A type that is not
in the table has no children. The standard table covers JavaScript, JSX and the common types of
TypeScript.
-/

namespace CodeAtlas

/-- The fields that hold children, by type of node. -/
structure ChildKeys where
  entries : List (String × List String) := []
deriving DecidableEq, Repr

namespace ChildKeys

/-- The fields to visit in a node of that type. -/
def find? (t : ChildKeys) (type : String) : Option (List String) :=
  (t.entries.find? (·.1 == type)).map (·.2)

def size (t : ChildKeys) : Nat := t.entries.length

def isEmpty (t : ChildKeys) : Bool := t.entries.isEmpty

/-- Gives a type its fields, in place of those it had. -/
def insert (t : ChildKeys) (type : String) (keys : List String) : ChildKeys :=
  if t.entries.any (·.1 == type) then
    ⟨t.entries.map fun entry => if entry.1 == type then (type, keys) else entry⟩
  else ⟨t.entries ++ [(type, keys)]⟩

/-- Reads a table from an object of arrays of texts. -/
def ofJson? (v : Json) : Option ChildKeys := do
  let fields ← v.fields?
  let entries ← fields.mapM fun (type, keys) => return (type, ← keys.strings?)
  return ⟨entries⟩

/-- The standard table. -/
def standard : ChildKeys := ⟨[
  ("File", ["program"]),
  ("Program", ["directives", "body"]),
  ("Directive", ["value"]),
  ("DirectiveLiteral", []),
  ("InterpreterDirective", []),
  ("BlockStatement", ["directives", "body"]),
  ("BreakStatement", ["label"]),
  ("ContinueStatement", ["label"]),
  ("DebuggerStatement", []),
  ("DoWhileStatement", ["body", "test"]),
  ("EmptyStatement", []),
  ("ExpressionStatement", ["expression"]),
  ("ForInStatement", ["left", "right", "body"]),
  ("ForOfStatement", ["left", "right", "body"]),
  ("ForStatement", ["init", "test", "update", "body"]),
  ("IfStatement", ["test", "consequent", "alternate"]),
  ("LabeledStatement", ["label", "body"]),
  ("ReturnStatement", ["argument"]),
  ("SwitchStatement", ["discriminant", "cases"]),
  ("SwitchCase", ["test", "consequent"]),
  ("ThrowStatement", ["argument"]),
  ("TryStatement", ["block", "handler", "finalizer"]),
  ("CatchClause", ["param", "body"]),
  ("WhileStatement", ["test", "body"]),
  ("WithStatement", ["object", "body"]),
  ("FunctionDeclaration", ["id", "typeParameters", "params", "returnType", "body"]),
  ("VariableDeclaration", ["declarations"]),
  ("VariableDeclarator", ["id", "init"]),
  ("ClassDeclaration",
    ["decorators", "id", "typeParameters", "superClass", "superTypeParameters",
      "implements", "body"]),
  ("ClassBody", ["body"]),
  ("ClassMethod", ["decorators", "key", "typeParameters", "params", "returnType", "body"]),
  ("ClassPrivateMethod", ["decorators", "key", "typeParameters", "params", "returnType", "body"]),
  ("ClassProperty", ["decorators", "key", "typeAnnotation", "value"]),
  ("ClassPrivateProperty", ["decorators", "key", "typeAnnotation", "value"]),
  ("ClassAccessorProperty", ["decorators", "key", "typeAnnotation", "value"]),
  ("PrivateName", ["id"]),
  ("StaticBlock", ["body"]),
  ("ImportDeclaration", ["specifiers", "source"]),
  ("ImportDefaultSpecifier", ["local"]),
  ("ImportNamespaceSpecifier", ["local"]),
  ("ImportSpecifier", ["imported", "local"]),
  ("ExportAllDeclaration", ["source"]),
  ("ExportDefaultDeclaration", ["declaration"]),
  ("ExportNamedDeclaration", ["declaration", "specifiers", "source"]),
  ("ExportSpecifier", ["local", "exported"]),
  ("ExportNamespaceSpecifier", ["exported"]),
  ("ArrayExpression", ["elements"]),
  ("ArrowFunctionExpression", ["typeParameters", "params", "returnType", "body"]),
  ("AssignmentExpression", ["left", "right"]),
  ("AwaitExpression", ["argument"]),
  ("BinaryExpression", ["left", "right"]),
  ("CallExpression", ["callee", "arguments", "typeParameters", "typeArguments"]),
  ("OptionalCallExpression", ["callee", "arguments", "typeParameters", "typeArguments"]),
  ("NewExpression", ["callee", "arguments", "typeParameters", "typeArguments"]),
  ("ClassExpression",
    ["decorators", "id", "typeParameters", "superClass", "superTypeParameters",
      "implements", "body"]),
  ("ConditionalExpression", ["test", "consequent", "alternate"]),
  ("FunctionExpression", ["id", "typeParameters", "params", "returnType", "body"]),
  ("Import", []),
  ("LogicalExpression", ["left", "right"]),
  ("MemberExpression", ["object", "property"]),
  ("OptionalMemberExpression", ["object", "property"]),
  ("MetaProperty", ["meta", "property"]),
  ("ObjectExpression", ["properties"]),
  ("ObjectMethod", ["decorators", "key", "typeParameters", "params", "returnType", "body"]),
  ("ObjectProperty", ["key", "value", "decorators"]),
  ("ParenthesizedExpression", ["expression"]),
  ("SequenceExpression", ["expressions"]),
  ("SpreadElement", ["argument"]),
  ("Super", []),
  ("TaggedTemplateExpression", ["tag", "typeParameters", "quasi"]),
  ("TemplateLiteral", ["quasis", "expressions"]),
  ("TemplateElement", []),
  ("ThisExpression", []),
  ("UnaryExpression", ["argument"]),
  ("UpdateExpression", ["argument"]),
  ("YieldExpression", ["argument"]),
  ("Decorator", ["expression"]),
  ("Identifier", ["typeAnnotation", "decorators"]),
  ("ArrayPattern", ["elements", "typeAnnotation"]),
  ("AssignmentPattern", ["left", "right", "decorators"]),
  ("ObjectPattern", ["properties", "typeAnnotation", "decorators"]),
  ("RestElement", ["argument", "typeAnnotation", "decorators"]),
  ("StringLiteral", []),
  ("NumericLiteral", []),
  ("BigIntLiteral", []),
  ("BooleanLiteral", []),
  ("NullLiteral", []),
  ("RegExpLiteral", []),
  ("JSXAttribute", ["name", "value"]),
  ("JSXClosingElement", ["name"]),
  ("JSXClosingFragment", []),
  ("JSXElement", ["openingElement", "children", "closingElement"]),
  ("JSXEmptyExpression", []),
  ("JSXExpressionContainer", ["expression"]),
  ("JSXFragment", ["openingFragment", "children", "closingFragment"]),
  ("JSXIdentifier", []),
  ("JSXMemberExpression", ["object", "property"]),
  ("JSXNamespacedName", ["namespace", "name"]),
  ("JSXOpeningElement", ["name", "typeParameters", "typeArguments", "attributes"]),
  ("JSXOpeningFragment", []),
  ("JSXSpreadAttribute", ["argument"]),
  ("JSXSpreadChild", ["expression"]),
  ("JSXText", []),
  ("TSAnyKeyword", []),
  ("TSArrayType", ["elementType"]),
  ("TSAsExpression", ["expression", "typeAnnotation"]),
  ("TSBooleanKeyword", []),
  ("TSDeclareFunction", ["id", "typeParameters", "params", "returnType"]),
  ("TSEnumDeclaration", ["id", "members"]),
  ("TSEnumMember", ["id", "initializer"]),
  ("TSFunctionType", ["typeParameters", "parameters", "typeAnnotation"]),
  ("TSInterfaceBody", ["body"]),
  ("TSInterfaceDeclaration", ["id", "typeParameters", "extends", "body"]),
  ("TSIntersectionType", ["types"]),
  ("TSLiteralType", ["literal"]),
  ("TSModuleBlock", ["body"]),
  ("TSModuleDeclaration", ["id", "body"]),
  ("TSNonNullExpression", ["expression"]),
  ("TSNullKeyword", []),
  ("TSNumberKeyword", []),
  ("TSParameterProperty", ["parameter", "decorators"]),
  ("TSPropertySignature", ["key", "typeAnnotation"]),
  ("TSQualifiedName", ["left", "right"]),
  ("TSStringKeyword", []),
  ("TSTypeAliasDeclaration", ["id", "typeParameters", "typeAnnotation"]),
  ("TSTypeAnnotation", ["typeAnnotation"]),
  ("TSTypeLiteral", ["members"]),
  ("TSTypeParameter", ["constraint", "default"]),
  ("TSTypeParameterDeclaration", ["params"]),
  ("TSTypeParameterInstantiation", ["params"]),
  ("TSTypeReference", ["typeName", "typeParameters"]),
  ("TSUndefinedKeyword", []),
  ("TSUnionType", ["types"]),
  ("TSUnknownKeyword", []),
  ("TSVoidKeyword", [])]⟩

end ChildKeys

end CodeAtlas
