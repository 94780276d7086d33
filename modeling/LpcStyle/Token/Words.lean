import LpcStyle.Token.Kind

/-!
Words and operators with a fixed meaning.
-/

namespace LpcStyle.Words

def modifiers : List String :=
  ["private", "protected", "static", "public", "nomask", "varargs", "deprecated", "nosave", "virtual"]

def types : List String :=
  ["int", "string", "status", "object", "array", "mapping", "closure", "symbol", "float", "mixed", "struct", "union",
    "null", "void", "class"]

/-- type words that may also name a variable, as in `int status` -/
def typesAllowedAsNames : List String := ["status", "symbol", "null"]

/-- type words that may stand in a cast -/
def castTypes : List String :=
  ["int", "string", "status", "object", "array", "mapping", "closure", "symbol", "float", "mixed", "union", "void"]

def directives : List String :=
  ["include", "define", "ifdef", "ifndef", "if", "else", "elif", "endif", "undef", "line", "echo", "pragma"]

def reserved : List String :=
  ["enum", "char", "double", "typdef", "unsigned", "register", "global", "extern", "goto"]

def keywords : List (String × Kind) :=
  [("if", .ifWord), ("else", .elseWord), ("for", .forWord), ("foreach", .foreachWord), ("while", .whileWord),
    ("do", .doWord), ("switch", .switchWord), ("case", .caseWord), ("default", .defaultWord),
    ("return", .returnWord), ("break", .breakWord), ("continue", .continueWord), ("inherit", .inheritWord)]

/-- longer operators come first, so the first that matches is the longest -/
def operators : List (String × Kind) :=
  [(">>>=", .assignOp), (">>=", .assignOp), ("<<=", .assignOp), ("&&=", .assignOp), ("||=", .assignOp),
    ("+=", .assignOp), ("-=", .assignOp), ("&=", .assignOp), ("|=", .assignOp), ("^=", .assignOp),
    ("*=", .assignOp), ("%=", .assignOp), ("/=", .assignOp), ("++", .assignOp), ("--", .assignOp),
    ("==", .binaryOp), ("!=", .binaryOp), ("<=", .binaryOp), (">=", .binaryOp), ("<<", .binaryOp),
    (">>", .binaryOp), ("||", .logicalOp), ("&&", .logicalOp), ("=", .assignOp), ("<", .binaryOp),
    (">", .binaryOp), ("*", .star), ("+", .arithOp), ("-", .arithOp), ("/", .arithOp), ("%", .arithOp),
    ("&", .arithOp), ("|", .arithOp), ("^", .arithOp), ("!", .unaryOp), ("~", .unaryOp)]

/-- the text is a word of the list -/
def isAmong (words : List String) (text : List Char) : Bool := words.any (·.toList == text)

/-- modifiers come before types, types before keywords; any other word is a name -/
def classify (word : List Char) : Kind :=
  if isAmong modifiers word then .modifier
  else if isAmong types word then .typeWord
  else
    match keywords.find? (·.1.toList == word) with
    | some (_, kind) => kind
    | none => if isAmong reserved word then .reserved else .name

/-- the type word may name a variable -/
def isTypeAllowedAsName (word : List Char) : Bool := isAmong typesAllowedAsNames word

end LpcStyle.Words
