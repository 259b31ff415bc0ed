import LeakTrace.Text.Basic

namespace LeakTrace

/-- What a node of a source tree stands for, whatever language it was read from. -/
inductive Kind where
  | program | block | function | classDecl | parameter | identifier | member | index | call
  | arguments | object | pair | spread | array | objectPattern | assignment | declaration
  | statement | ret | string | template | number | boolean | null | binary | comment | error | other
  deriving DecidableEq, Inhabited

namespace Kind

def name : Kind → String
  | program => "program"
  | block => "block"
  | function => "function"
  | classDecl => "class"
  | parameter => "parameter"
  | identifier => "identifier"
  | member => "member"
  | index => "index"
  | call => "call"
  | arguments => "arguments"
  | object => "object"
  | pair => "pair"
  | spread => "spread"
  | array => "array"
  | objectPattern => "object_pattern"
  | assignment => "assignment"
  | declaration => "declaration"
  | statement => "statement"
  | ret => "return"
  | string => "string"
  | template => "template_string"
  | number => "number"
  | boolean => "boolean"
  | null => "null"
  | binary => "binary"
  | comment => "comment"
  | error => "error"
  | other => "other"

def all : List Kind :=
  [program, block, function, classDecl, parameter, identifier, member, index, call, arguments,
    object, pair, spread, array, objectPattern, assignment, declaration, statement, ret, string,
    template, number, boolean, null, binary, comment, error, other]

/-- The kind of a name; case and surrounding blanks do not matter. -/
def ofName? (name : String) : Option Kind :=
  let wanted := Text.lowered (Text.trimmed name)
  all.find? fun kind => kind.name == wanted

/-- Kinds whose text counts when two trees are compared. -/
def hasSignificantText : Kind → Bool
  | identifier | string | number | boolean | binary | object | assignment => true
  | _ => false

def isLiteral : Kind → Bool
  | string | number | boolean | null => true
  | _ => false

/-- Containers whose children may be matched in any order, with others between them. -/
def isUnordered : Kind → Bool
  | program | block | classDecl | object | objectPattern => true
  | _ => false

/-- Kinds that name a place: a variable, a property of something, an element of something. -/
def isAccess : Kind → Bool
  | identifier | member | index => true
  | _ => false

end Kind

inductive Role where
  | object | property | index | function | arguments | left | right | key | value | name
  | parameters | body | condition
  deriving DecidableEq, Inhabited

namespace Role

def label : Role → String
  | object => "object"
  | property => "property"
  | index => "index"
  | function => "function"
  | arguments => "arguments"
  | left => "left"
  | right => "right"
  | key => "key"
  | value => "value"
  | name => "name"
  | parameters => "parameters"
  | body => "body"
  | condition => "condition"

def all : List Role :=
  [object, property, index, function, arguments, left, right, key, value, name, parameters, body,
    condition]

def ofLabel? (label : String) : Option Role := all.find? fun role => role.label == label

end Role

inductive Language where
  | javascript | rust
  deriving DecidableEq, Inhabited

namespace Language

def name : Language → String
  | javascript => "javascript"
  | rust => "rust"

/-- Whether every block opens a scope, rather than functions alone. -/
def blockScoped : Language → Bool
  | javascript => false
  | rust => true

end Language

end LeakTrace
