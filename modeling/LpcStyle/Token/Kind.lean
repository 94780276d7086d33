/-!
Kinds of tokens. A kind says how a token may be used; its text says which word, operator or literal it is.
-/

namespace LpcStyle

inductive Kind where
  | lineComment | blockComment | blankLines | name | typeWord | modifier | reserved | ifWord | elseWord
  | forWord | foreachWord | whileWord | doWord | switchWord | caseWord | defaultWord | returnWord
  | breakWord | continueWord | inheritWord | number | string | char | symbol | closureSymbol | closureIndex
  | closureArgument | structType | textBlockStart | textBlockBody | textBlockEnd | parenStart | parenEnd
  | arrayStart | arrayEnd | mappingStart | mappingEnd | closureStart | closureEnd | lambdaStart | lambdaEnd
  | indexStart | indexEnd | leftBrace | rightBrace | typeCast | semicolon | comma | colon | doubleColon
  | question | arrow | dot | ellipsis | range | fromEnd | foreachIn | binaryOp | logicalOp | assignOp
  | arithOp | unaryOp | star | directive | directiveKey | directiveArgument | directiveLineBreak
  | directiveEnd | unknown | endOfFile
deriving DecidableEq, Repr, Inhabited

namespace Kind

/-- every kind, in order of its index -/
def all : List Kind := [
  .lineComment, .blockComment, .blankLines, .name, .typeWord, .modifier, .reserved, .ifWord, .elseWord,
  .forWord, .foreachWord, .whileWord, .doWord, .switchWord, .caseWord, .defaultWord, .returnWord, .breakWord,
  .continueWord, .inheritWord, .number, .string, .char, .symbol, .closureSymbol, .closureIndex,
  .closureArgument, .structType, .textBlockStart, .textBlockBody, .textBlockEnd, .parenStart, .parenEnd,
  .arrayStart, .arrayEnd, .mappingStart, .mappingEnd, .closureStart, .closureEnd, .lambdaStart, .lambdaEnd,
  .indexStart, .indexEnd, .leftBrace, .rightBrace, .typeCast, .semicolon, .comma, .colon, .doubleColon,
  .question, .arrow, .dot, .ellipsis, .range, .fromEnd, .foreachIn, .binaryOp, .logicalOp, .assignOp,
  .arithOp, .unaryOp, .star, .directive, .directiveKey, .directiveArgument, .directiveLineBreak,
  .directiveEnd, .unknown, .endOfFile]

/-- the tag a kind is listed under -/
def tag : Kind → String
  | .lineComment => "LINE_COMMENT"
  | .blockComment => "BLOCK_COMMENT"
  | .blankLines => "BLANK_LINES"
  | .name => "NAME"
  | .typeWord => "TYPE"
  | .modifier => "MODIFIER"
  | .reserved => "RESERVED"
  | .ifWord => "IF_KW"
  | .elseWord => "ELSE_KW"
  | .forWord => "FOR_KW"
  | .foreachWord => "FOREACH_KW"
  | .whileWord => "WHILE_KW"
  | .doWord => "DO_KW"
  | .switchWord => "SWITCH_KW"
  | .caseWord => "CASE_KW"
  | .defaultWord => "DEFAULT_KW"
  | .returnWord => "RETURN_KW"
  | .breakWord => "BREAK_KW"
  | .continueWord => "CONTINUE_KW"
  | .inheritWord => "INHERIT_KW"
  | .number => "NUMBER"
  | .string => "STRING"
  | .char => "CHAR"
  | .symbol => "SYMBOL"
  | .closureSymbol => "CLOSURE"
  | .closureIndex => "LAMBDA_INDEXOR"
  | .closureArgument => "CLOSURE_ARG"
  | .structType => "STRUCT_TYPE"
  | .textBlockStart => "STRING_BLOCK_START"
  | .textBlockBody => "STRING_BLOCK_BODY"
  | .textBlockEnd => "STRING_BLOCK_END"
  | .parenStart => "PAREN_START"
  | .parenEnd => "PAREN_END"
  | .arrayStart => "ARRAY_START"
  | .arrayEnd => "ARRAY_END"
  | .mappingStart => "MAPPING_START"
  | .mappingEnd => "MAPPING_END"
  | .closureStart => "INLINE_CLOSURE_START"
  | .closureEnd => "INLINE_CLOSURE_END"
  | .lambdaStart => "LAMBDA_START"
  | .lambdaEnd => "LAMBDA_END"
  | .indexStart => "INDEXOR_START"
  | .indexEnd => "INDEXOR_END"
  | .leftBrace => "LEFT_BRACE"
  | .rightBrace => "RIGHT_BRACE"
  | .typeCast => "TYPE_CAST"
  | .semicolon => "SEMICOLON"
  | .comma => "COMMA"
  | .colon => "COLON"
  | .doubleColon => "DOUBLE_COLON"
  | .question => "QUESTION"
  | .arrow => "ARROW"
  | .dot => "DOT"
  | .ellipsis => "ELLIPSIS"
  | .range => "RANGE"
  | .fromEnd => "FROM_END"
  | .foreachIn => "FOREACH_IN"
  | .binaryOp => "BINARY_OP"
  | .logicalOp => "LOGICAL_OP"
  | .assignOp => "ASSIGN_OP"
  | .arithOp => "ARITH_OP"
  | .unaryOp => "UNARY_OP"
  | .star => "STAR"
  | .directive => "DIRECTIVE"
  | .directiveKey => "DIRECTIVE_KEY"
  | .directiveArgument => "DIRECTIVE_ARGUMENT"
  | .directiveLineBreak => "DIRECTIVE_LINE_BREAK"
  | .directiveEnd => "DIRECTIVE_END"
  | .unknown => "UNKNOWN"
  | .endOfFile => "EOF"

/-- the kind listed under a tag -/
def ofTag? (tag : String) : Option Kind := all.find? (·.tag == tag)

/-- line and block comments -/
def isComment : Kind → Bool
  | .lineComment | .blockComment => true
  | _ => false

/-- comments and blank lines: what the grammar does not read -/
def isTrivia (k : Kind) : Bool := k.isComment || k == .blankLines

/-- operators that stand between two operands -/
def isOperator : Kind → Bool
  | .binaryOp | .logicalOp | .arithOp | .star => true
  | _ => false

/-- literals, text blocks by their first token -/
def isLiteral : Kind → Bool
  | .number | .string | .char | .symbol | .textBlockStart => true
  | _ => false

theorem mem_all (k : Kind) : k ∈ all := by cases k <;> decide

end Kind

end LpcStyle
