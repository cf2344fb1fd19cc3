import Mathlib.Logic.Function.Basic
import AssureCode.Js.Number
import AssureCode.Js.Text
import AssureCode.Walk.Scopes

/-! # Cyclomatic complexity

The ci-worker counts the branch points of a parsed source, of the module and of each function in it.
A node of the syntax tree is its place in it, and what is below a node comes in the order in which
`traverse` goes through its fields.
-/

namespace AssureCode.Ast

open Js Walk

/-- The field of the parent that holds a node. -/
inductive Field
  | id
  | key
  | left
  | test
  | other
  deriving DecidableEq

/-- The type of a node, with what is read of it. -/
inductive Kind
  | functionDeclaration
  | functionExpression
  | arrowFunctionExpression
  | objectMethod
  | classMethod
  | classPrivateMethod
  | ifStatement
  | conditionalExpression
  | forStatement
  | forInStatement
  | forOfStatement
  | whileStatement
  | doWhileStatement
  | catchClause
  | switchCase
  | logicalExpression (operator : Text)
  | identifier (name : Text)
  | stringLiteral (value : Text)
  | variableDeclarator
  | assignmentExpression
  | objectProperty
  | other
  deriving DecidableEq

structure Label where
  field : Field
  kind : Kind
  /-- `loc.start.line` -/
  line : Option ℕ

abbrev Node := Branch Label

/-- `NodePath` -/
abbrev NodePath := Visit Label

namespace Node

def kind (node : Node) : Kind := node.label.kind

/-- The node that a field holds. -/
def child (node : Node) (field : Field) : Option Node :=
  node.below.branches.find? fun c => c.label.field = field

end Node

def decisionCountFor (node : Node) : ℕ :=
  match Node.kind node with
  | .ifStatement | .conditionalExpression | .forStatement | .forInStatement | .forOfStatement
  | .whileStatement | .doWhileStatement | .catchClause => 1
  | .switchCase => if (Node.child node .test).isSome then 1 else 0
  | .logicalExpression operator =>
    if operator = units "&&" ∨ operator = units "||" ∨ operator = units "??" then 1 else 0
  | _ => 0

/-- `FUNCTION_TYPES` -/
def functionTypes : List Kind :=
  [.functionDeclaration, .functionExpression, .arrowFunctionExpression, .objectMethod, .classMethod,
    .classPrivateMethod]

def isFunctionType (node : Node) : Bool := Node.kind node ∈ functionTypes

def identifierName (node : Node) : Option Text :=
  match Node.kind node with
  | .identifier name => some name
  | _ => none

/-- The name of an identifier, or the value of a string. -/
def keyName (node : Node) : Option Text :=
  match Node.kind node with
  | .identifier name => some name
  | .stringLiteral value => some value
  | _ => none

def functionName (path : NodePath) : Text :=
  let parentName := do
    let (_, parent) ← path.above.head?
    match Node.kind parent with
    | .variableDeclarator => (Node.child parent .id).bind identifierName
    | .assignmentExpression => (Node.child parent .left).bind identifierName
    | .objectProperty => (Node.child parent .key).bind identifierName
    | _ => none
  ((Node.child path.node .id).bind identifierName <|> (Node.child path.node .key).bind keyName <|>
    parentName).getD (units "<anonymous>")

/-- What is used of Babel. -/
structure Babel where
  /-- The program, or the message of the error. -/
  parse : Text → Except Text Node
  /-- The paths that `traverse` enters, in order. -/
  traverse : Node → List NodePath
  /-- The alias `Function`. -/
  isFunction : Kind → Bool

/-- Each node is entered once, and the alias has the types that Babel lists. -/
structure Babel.Documented (babel : Babel) : Prop where
  enters (ast : Node) : (babel.traverse ast).Perm ast.visits
  isFunction (kind : Kind) : babel.isFunction kind = decide (kind ∈ functionTypes)

/-- The place of `path.getFunctionParent()`, the first function above the path. -/
def Babel.getFunctionParent (babel : Babel) (path : NodePath) : Option (List ℕ) :=
  nearest (fun node => babel.isFunction (Node.kind node)) path.above

structure FunctionComplexity where
  name : Text
  line : ℕ
  cyclomaticComplexity : ℕ
  deriving DecidableEq

/-- What the first pass collects. The `Map` is only looked up. -/
structure Counted where
  moduleDecisions : ℕ := 0
  functions : List FunctionComplexity := []
  decisionsByFunction : List ℕ → Option ℕ := fun _ => none

/-- `decisionsByFunction.set(fn, (decisionsByFunction.get(fn) ?? 0) + decisions)` -/
def Counted.attribute (c : Counted) (fn : List ℕ) (decisions : ℕ) : Counted :=
  { c with
    decisionsByFunction := Function.update c.decisionsByFunction fn
      (some ((c.decisionsByFunction fn).getD 0 + decisions)) }

/-- A function is reported; its complexity is filled in later. -/
def Counted.addFunction (c : Counted) (path : NodePath) : Counted :=
  if isFunctionType path.node then
    { c.attribute path.place 0 with
      functions := c.functions ++ [⟨functionName path, path.node.label.line.getD 0, 0⟩] }
  else c

/-- The decisions of a node are those of the module and of the nearest function. -/
def Counted.addDecisions (babel : Babel) (c : Counted) (path : NodePath) : Counted :=
  let decisions := decisionCountFor path.node
  if decisions = 0 then c
  else
    let c := { c with moduleDecisions := c.moduleDecisions + decisions }
    match babel.getFunctionParent path with
    | some fn => c.attribute fn decisions
    | none => c

/-- The entry of a node in the first pass. -/
def count (babel : Babel) (c : Counted) (path : NodePath) : Counted :=
  (c.addFunction path).addDecisions babel path

/-- The entry of a node in the second pass: the functions, and the index of the next one. -/
def fill (decisionsByFunction : List ℕ → Option ℕ) (s : List FunctionComplexity × ℕ)
    (path : NodePath) : List FunctionComplexity × ℕ :=
  if isFunctionType path.node then
    let decisions := (decisionsByFunction path.place).getD 0
    (s.1.modify s.2 fun f => { f with cyclomaticComplexity := decisions + 1 }, s.2 + 1)
  else s

structure ASTAnalysisResult where
  cyclomaticComplexity : ℕ
  physicalLines : ℕ
  functionCount : ℕ
  functions : List FunctionComplexity
  averageComplexity : Number
  maxComplexity : ℕ
  parsed : Bool
  parseError : Option Text

def analyzeAST (babel : Babel) (codeString : Text) : ASTAnalysisResult :=
  let physicalLines := if codeString = [] then 0 else (lines codeString).length
  match babel.parse codeString with
  | .error message =>
    { cyclomaticComplexity := 0, physicalLines, functionCount := 0, functions := [],
      averageComplexity := .ofRat 0, maxComplexity := 0, parsed := false,
      parseError := some message }
  | .ok ast =>
    let counted := (babel.traverse ast).foldl (count babel) {}
    let functions :=
      ((babel.traverse ast).foldl (fill counted.decisionsByFunction) (counted.functions, 0)).1
    let cyclomaticComplexity : ℕ := counted.moduleDecisions + 1
    let perFunction : List ℕ := functions.map (·.cyclomaticComplexity)
    { cyclomaticComplexity, physicalLines, functionCount := functions.length, functions,
      averageComplexity :=
        if perFunction.length > 0 then .ofRat ((perFunction.sum : ℚ) / perFunction.length)
        else .ofRat cyclomaticComplexity,
      maxComplexity := perFunction.max?.getD cyclomaticComplexity, parsed := true,
      parseError := none }

end AssureCode.Ast
