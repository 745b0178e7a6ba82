namespace OcLang

/-! ## What a tree node stands for

Kinds are grouped by the part they play: a type keyword, an operator, a
literal or an allocation says which one it is in an argument, so that a rule
for all operators is one case. -/

/-- Type keywords; `named` is a struct type written by its name. -/
inductive TypeName where
  | void | int | char | bool | string | named
deriving DecidableEq, Repr

inductive BinaryOperator where
  | add | sub | mul | div | rem
  | eq | ne | lt | le | gt | ge
deriving DecidableEq, Repr

inductive UnaryOperator where
  | pos | neg | not | ord | chr
deriving DecidableEq, Repr

inductive Literal where
  | int | char | string | null
deriving DecidableEq, Repr

inductive Allocation where
  | struct | array | string
deriving DecidableEq, Repr

inductive Kind where
  | root
  | struct
  | field
  | type (name : TypeName)
  | arrayMark
  | declaredName
  | function
  | prototype
  | parameters
  | variable
  | block
  | whileLoop
  | ifThen
  | ifElse
  | returnValue
  | returnVoid
  | assign
  | binary (operator : BinaryOperator)
  | unary (operator : UnaryOperator)
  | call
  | allocate (what : Allocation)
  | index
  | select
  | identifier
  | literal (what : Literal)
deriving DecidableEq, Repr

namespace BinaryOperator

def all : List BinaryOperator :=
  [.add, .sub, .mul, .div, .rem, .eq, .ne, .lt, .le, .gt, .ge]

def isArithmetic : BinaryOperator → Bool
  | .add | .sub | .mul | .div | .rem => true
  | _ => false

def isComparison (operator : BinaryOperator) : Bool :=
  !operator.isArithmetic

def isEquality : BinaryOperator → Bool
  | .eq | .ne => true
  | _ => false

def spelling : BinaryOperator → String
  | .add => "+" | .sub => "-" | .mul => "*" | .div => "/" | .rem => "%"
  | .eq => "==" | .ne => "!=" | .lt => "<" | .le => "<=" | .gt => ">" | .ge => ">="

end BinaryOperator

namespace UnaryOperator

def all : List UnaryOperator :=
  [.pos, .neg, .not, .ord, .chr]

def spelling : UnaryOperator → String
  | .pos => "+" | .neg => "-" | .not => "!" | .ord => "ord" | .chr => "chr"

def isConversion : UnaryOperator → Bool
  | .ord | .chr => true
  | _ => false

end UnaryOperator

namespace Kind

def all : List Kind :=
  [.root, .struct, .field,
    .type .named, .type .void, .type .int, .type .char, .type .bool, .type .string,
    .arrayMark, .declaredName, .function, .prototype, .parameters, .variable, .block,
    .whileLoop, .ifThen, .ifElse, .returnValue, .returnVoid, .assign] ++
  BinaryOperator.all.map .binary ++ UnaryOperator.all.map .unary ++
  [.call, .allocate .struct, .allocate .array, .allocate .string, .index, .select, .identifier,
    .literal .int, .literal .char, .literal .string, .literal .null]

def name : Kind → String
  | .root => "root"
  | .struct => "struct"
  | .field => "field"
  | .type .named => "typeid"
  | .type .void => "void"
  | .type .int => "int"
  | .type .char => "char"
  | .type .bool => "bool"
  | .type .string => "string"
  | .arrayMark => "array"
  | .declaredName => "declid"
  | .function => "function"
  | .prototype => "prototype"
  | .parameters => "paramlist"
  | .variable => "vardecl"
  | .block => "block"
  | .whileLoop => "while"
  | .ifThen => "if"
  | .ifElse => "ifelse"
  | .returnValue => "return"
  | .returnVoid => "returnvoid"
  | .assign => "assign"
  | .binary .add => "add"
  | .binary .sub => "sub"
  | .binary .mul => "mul"
  | .binary .div => "div"
  | .binary .rem => "rem"
  | .binary .eq => "eq"
  | .binary .ne => "ne"
  | .binary .lt => "lt"
  | .binary .le => "le"
  | .binary .gt => "gt"
  | .binary .ge => "ge"
  | .unary .pos => "pos"
  | .unary .neg => "neg"
  | .unary .not => "not"
  | .unary .ord => "ord"
  | .unary .chr => "chr"
  | .call => "call"
  | .allocate .struct => "new"
  | .allocate .array => "newarray"
  | .allocate .string => "newstring"
  | .index => "index"
  | .select => "select"
  | .identifier => "ident"
  | .literal .int => "intcon"
  | .literal .char => "charcon"
  | .literal .string => "stringcon"
  | .literal .null => "null"

def ofName? (text : String) : Option Kind :=
  all.find? fun kind => kind.name == text

/-- The word that heads a line of a tree dump. Kinds written by a single
character of the language are shown as that character in quotes. -/
def tag : Kind → String
  | .root => "ROOT"
  | .struct => "STRUCT"
  | .field => "FIELD"
  | .type .named => "TYPEID"
  | .type .void => "VOID"
  | .type .int => "INT"
  | .type .char => "CHAR"
  | .type .bool => "BOOL"
  | .type .string => "STRING"
  | .arrayMark => "ARRAY"
  | .declaredName => "DECLID"
  | .function => "FUNCTION"
  | .prototype => "PROTOTYPE"
  | .parameters => "PARAMLIST"
  | .variable => "VARDECL"
  | .block => "BLOCK"
  | .whileLoop => "WHILE"
  | .ifThen => "IF"
  | .ifElse => "IFELSE"
  | .returnValue => "RETURN"
  | .returnVoid => "RETURNVOID"
  | .assign => "'='"
  | .binary .add => "'+'"
  | .binary .sub => "'-'"
  | .binary .mul => "'*'"
  | .binary .div => "'/'"
  | .binary .rem => "'%'"
  | .binary .eq => "EQ"
  | .binary .ne => "NE"
  | .binary .lt => "LT"
  | .binary .le => "LE"
  | .binary .gt => "GT"
  | .binary .ge => "GE"
  | .unary .pos => "POS"
  | .unary .neg => "NEG"
  | .unary .not => "'!'"
  | .unary .ord => "ORD"
  | .unary .chr => "CHR"
  | .call => "CALL"
  | .allocate .struct => "NEW"
  | .allocate .array => "NEWARRAY"
  | .allocate .string => "NEWSTRING"
  | .index => "INDEX"
  | .select => "'.'"
  | .identifier => "IDENT"
  | .literal .int => "INTCON"
  | .literal .char => "CHARCON"
  | .literal .string => "STRINGCON"
  | .literal .null => "NULL"

def isQuoted : Kind → Bool
  | .assign | .select | .unary .not => true
  | .binary operator => operator.isArithmetic
  | _ => false

def token (kind : Kind) : String :=
  if kind.isQuoted then kind.tag else "TOK_" ++ kind.tag

def operator? : Kind → Option String
  | .binary operator => some operator.spelling
  | .unary operator => some operator.spelling
  | _ => none

def isType : Kind → Bool
  | .type _ => true
  | _ => false

def isArithmetic : Kind → Bool
  | .binary operator => operator.isArithmetic
  | _ => false

def isComparison : Kind → Bool
  | .binary operator => operator.isComparison
  | _ => false

def isBinary : Kind → Bool
  | .binary _ => true
  | _ => false

def isUnary : Kind → Bool
  | .unary _ => true
  | _ => false

def isNaming : Kind → Bool
  | .declaredName | .field => true
  | _ => false

theorem mem_all (kind : Kind) : kind ∈ all := by
  cases kind with
  | type name => cases name <;> decide
  | binary operator => cases operator <;> decide
  | unary operator => cases operator <;> decide
  | allocate what => cases what <;> decide
  | literal what => cases what <;> decide
  | _ => decide

example : ofName? "vardecl" = some .variable ∧ ofName? "Root" = none := by
  decide

end Kind

end OcLang
