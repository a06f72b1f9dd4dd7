/-!
# How names are spelled

Variables, attributes and aggregates of a query are plain texts that are told apart by their
spelling. Symbols consist of ASCII letters and digits and of a few signs.

## Main definitions

* `isLogicVar`, `isSourceVar`, `isRulesVar`, `isBlankVar` — variables
* `isQualifiedAttr` — names of attributes
* `isAggregate` — aggregates
-/

namespace DatalogClient.Spelling

/-- A character of a symbol. -/
def isSymbolChar (c : Char) : Bool :=
  c.isAlphanum || c == '_' || c == '-' || c == '*' || c == '+' || c == '!' || c == '.'

/-- A question mark and a symbol. -/
def isLogicVar (text : String) : Bool :=
  match text.toList with
  | '?' :: rest => !rest.isEmpty && rest.all isSymbolChar
  | _ => false

/-- A dollar sign alone or with a symbol. -/
def isSourceVar (text : String) : Bool :=
  match text.toList with
  | '$' :: rest => rest.all isSymbolChar
  | _ => false

/-- The percent sign stands for the rules. -/
def isRulesVar (text : String) : Bool := text == "%"

/-- The underscore stands for anything. -/
def isBlankVar (text : String) : Bool := text == "_"

/-- A variable or the blank. -/
def isVarOrBlank (text : String) : Bool := isLogicVar text || isBlankVar text

/-- What a single input may be bound to. -/
def isInputVar (text : String) : Bool := isLogicVar text || isSourceVar text || isRulesVar text

/-- A text without a colon at its beginning. -/
def dropColon : List Char → List Char
  | ':' :: rest => rest
  | text => text

/-- Namespace and name with a slash between, neither of them empty; there is no further slash and
no space. A colon may stand at the beginning. -/
def isQualifiedAttr (text : String) : Bool :=
  let chars := dropColon text.toList
  match chars.dropWhile (· != '/') with
  | [] => false
  | _ :: name =>
    !(chars.takeWhile (· != '/')).isEmpty && !name.isEmpty && !name.contains '/' &&
      !chars.contains ' '

/-- Something between parentheses. -/
def isAggregate (text : String) : Bool :=
  text.toList.head? == some '(' && text.toList.getLast? == some ')' && 2 < text.toList.length

end DatalogClient.Spelling
