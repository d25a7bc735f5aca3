import ReferencePages.TypeScript.Grammar.Modules

/-!
# Sources

A source is read as the items of a module. How deep its parts nest is bounded by its length, since
no part is nested before a character of what it belongs to.
-/

namespace ReferencePages.TypeScript

/-- The grammar for parts that nest at most `depth` deep. -/
def Nested.ofDepth : Nat → Nested
  | 0 =>
    { type := Parser.refuse
      operandType := Parser.refuse
      expression := Parser.refuse
      operation := Parser.refuse
      unary := Parser.refuse
      base := Parser.refuse
      member := Parser.refuse
      suffixes := fun _ _ => Parser.refuse
      pattern := Parser.refuse
      element := fun _ => Parser.refuse
      statement := Parser.refuse
      item := Parser.refuse }
  | depth + 1 =>
    { type := fun scope c => Grammar.type (ofDepth depth) scope c
      operandType := fun scope c => Grammar.operandType (ofDepth depth) scope c
      expression := fun scope c => Grammar.expression (ofDepth depth) scope c
      operation := fun scope c => Grammar.operation (ofDepth depth) scope c
      unary := fun scope c => Grammar.unary (ofDepth depth) scope c
      base := fun scope c => Grammar.baseForm (ofDepth depth) scope c
      member := fun scope c => Grammar.memberForm (ofDepth depth) scope c
      suffixes := fun reach form scope c => Grammar.suffixes (ofDepth depth) reach form scope c
      pattern := fun scope c => Grammar.pattern (ofDepth depth) scope c
      element := fun place scope c => Grammar.element (ofDepth depth) place scope c
      statement := fun scope c => Grammar.statement (ofDepth depth) scope c
      item := fun scope c => Grammar.item (ofDepth depth) scope c }

/-- The items of a module, up to the end of its source. -/
def moduleItems (g : Nested) : Parser (List Item) :=
  Parser.many do if ← Parser.atEnd then return none else return some (← g.item)

/-- Read a source of a language. -/
def Source.parse? (language : Language) (text : List Char) : Option Source :=
  match moduleItems (Nested.ofDepth (text.length + 2)) { language } (Cursor.ofSource text) with
  | .found items _ _ => some ⟨text, items⟩
  | .refused _ _ => none

end ReferencePages.TypeScript
