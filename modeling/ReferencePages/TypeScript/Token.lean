/-!
# Tokens of TypeScript

A token carries where it stands in the source, whether a line break stands before it, and the
comments that belong to it. Positions count characters.
-/

namespace ReferencePages.TypeScript

/-- A part of the source: the characters from `lo` up to, and without, `hi`. -/
structure Span where
  lo : Nat
  hi : Nat
deriving Repr, DecidableEq, Inhabited

/-- The text of a span. -/
def Span.slice (span : Span) (source : List Char) : List Char :=
  (source.drop span.lo).take (span.hi - span.lo)

/-- A comment that stands before a token. -/
structure Comment where
  /-- Where the comment begins. -/
  lo : Nat
  /-- Between `/*` and `*/`, and otherwise up to the end of the line. -/
  isBlock : Bool
  /-- What the comment says, without what delimits it. -/
  text : List Char
deriving Repr, DecidableEq, Inhabited

/-- What a token is. -/
inductive TokenKind where
  /-- An identifier or keyword, with its escapes resolved. A word that begins with an escape has
  no meaning of its own. -/
  | word (name : String) (escaped : Bool)
  /-- A private name, without its sign. -/
  | privateName (name : String)
  /-- A number, as a fraction. -/
  | number (num den : Nat)
  /-- An integer of any size. -/
  | bigint (value : Nat)
  /-- A string, with its escapes resolved. -/
  | string (value : String)
  /-- A template up to its end, or up to its first insertion; whether its escapes are valid. -/
  | template (closes isValid : Bool)
  | punct (text : String)
  /-- A part of the source that is no token. -/
  | invalid
deriving Repr, DecidableEq, Inhabited

/-- A token in its place. -/
structure Token where
  kind : TokenKind
  span : Span
  /-- A line break stands between the token before and this one. -/
  newline : Bool
  /-- The comments before the token that belong to it. -/
  comments : List Comment
deriving Repr, DecidableEq, Inhabited

/-- Words with a meaning of their own. -/
def keywords : List String :=
  ["await", "break", "case", "catch", "continue", "debugger", "default", "do", "else", "finally",
    "for", "function", "if", "return", "switch", "throw", "try", "var", "let", "const", "while",
    "with", "new", "this", "super", "class", "extends", "export", "import", "yield", "in",
    "instanceof", "typeof", "void", "delete", "null", "true", "false"]

/-- Words that stand for no value, though they may name what is declared. -/
def guardedWords : List String :=
  ["static", "implements", "interface", "package", "private", "protected", "public", "enum"]

/-- Whether a word never stands for a value that it names. -/
def isReserved (name : String) : Bool := keywords.contains name || guardedWords.contains name

/-- Marks between two values. -/
def binaryOperators : List String :=
  ["==", "===", "!=", "!==", "<", ">", "+", "-", "*", "/", "%", "|", "^", "&", "||", "&&", "**",
    "??"]

namespace TokenKind

/-- Whether a comment behind the token, on its line, belongs to the token. -/
def ownsComments : TokenKind → Bool
  | .word name escaped => escaped || !keywords.contains name
  | .privateName _ => true
  | .number _ _ => true
  | .bigint _ => true
  | .string _ => true
  | .template closes _ => !closes
  | .punct text => text == ";" || text == "\x7b" || text == "\x7d"
  | .invalid => false

/-- Whether the token is a mark between two values. -/
def isBinaryOperator : TokenKind → Bool
  | .punct text => binaryOperators.contains text
  | _ => false

/-- Whether the token is a word. -/
def isName : TokenKind → Bool
  | .word _ _ => true
  | _ => false

/-- Whether the token is a word that may stand for the value it names. -/
def isIdentifier : TokenKind → Bool
  | .word name escaped => escaped || !isReserved name
  | _ => false

/-- Whether the token is a string. -/
def isString : TokenKind → Bool
  | .string _ => true
  | _ => false

/-- Whether the token is a private name. -/
def isPrivate : TokenKind → Bool
  | .privateName _ => true
  | _ => false

/-- Whether the token begins a template. -/
def isTemplate : TokenKind → Bool
  | .template _ _ => true
  | _ => false

end TokenKind

end ReferencePages.TypeScript
