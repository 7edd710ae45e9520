import Lox.Error
import Lox.Token

/-!
# Faults of grammar

Why tokens are no program. Most faults are a token that is missing at a landmark of the
grammar; `Landmark` lists these places, with the kind of token each asks for and the
words for its absence.
-/

namespace Lox

/-- The most parameters a function may have, and the most arguments a call may have. -/
def maxArity : Nat := 255

/-- A place in the grammar at which one kind of token must stand. -/
inductive Landmark
  | functionName | functionOpen | parameterName | parametersClose | bodyOpen
  | variableName | variableEnd
  | blockClose
  | ifOpen | ifClose
  | whileOpen | whileClose
  | forOpen | forConditionEnd | forClose
  | returnEnd | printEnd | expressionEnd
  | argumentsClose | groupClose
deriving DecidableEq

namespace Landmark

/-- The kind of token that must stand there. -/
def kind : Landmark → TokenKind
  | functionName | parameterName | variableName => .identifier
  | functionOpen | ifOpen | whileOpen | forOpen => .leftParen
  | parametersClose | ifClose | whileClose | forClose | argumentsClose | groupClose => .rightParen
  | bodyOpen => .leftBrace
  | blockClose => .rightBrace
  | variableEnd | forConditionEnd | returnEnd | printEnd | expressionEnd => .semicolon

/-- The words for its absence. -/
def message : Landmark → String
  | functionName => "Expect function name after \"fun\""
  | functionOpen => "Expect \"(\" after function name"
  | parameterName => "Expect parameter name"
  | parametersClose => "Expect \")\" after parameters"
  | bodyOpen => "Expect \"\x7b\" before function body"
  | variableName => "\"var\" declared without identifier token as variable name"
  | variableEnd => "Missing semicolon \";\" after variable declaration"
  | blockClose => "Expect \"\x7d\" after block"
  | ifOpen => "Missing \"(\" after \"if\""
  | ifClose => "Missing \")\" after \"if\" condition"
  | whileOpen => "Missing \"(\" after \"while\""
  | whileClose => "Missing \")\" after \"while\" condition"
  | forOpen => "Missing \"(\" after \"for\""
  | forConditionEnd => "Missing \";\" after loop condition"
  | forClose => "Missing \")\" after for clauses"
  | returnEnd => "Missing semicolon \";\" after return statement"
  | printEnd => "Missing semicolon \";\" after value"
  | expressionEnd => "Missing semicolon \";\" after expression"
  | argumentsClose => "Expect \")\" after arguments"
  | groupClose => "Expect \")\" after expression"

end Landmark

/-- Why tokens are no program. -/
inductive GrammarFault
  /-- The token for a landmark is missing. -/
  | missing (place : Landmark)
  /-- More parameters than `maxArity`. -/
  | tooManyParameters
  /-- More arguments than `maxArity`. -/
  | tooManyArguments
  /-- An `=` after something that is not a bare name. -/
  | invalidTarget
  /-- A number token whose text is no number. -/
  | invalidNumber (text : String)
  /-- The input ends where an expression must begin. -/
  | noExpression
  /-- No expression begins with this token. -/
  | notExpression (text : String)
  /-- An expression was to be the whole input, and this token follows it. -/
  | trailing (text : String)
deriving DecidableEq

namespace GrammarFault

/-- The words for a fault. -/
def message : GrammarFault → String
  | missing place => place.message
  | tooManyParameters => "Can't have more than " ++ toString maxArity ++ " parameters"
  | tooManyArguments => "Can't have more than " ++ toString maxArity ++ " arguments"
  | invalidTarget => "Invalid assignment target"
  | invalidNumber text => "Invalid number \"" ++ text ++ "\""
  | noExpression => "Expect expression, found end of input"
  | notExpression text => "Unrecognized primary lexeme: \"" ++ text ++ "\""
  | trailing text => "Unexpected \"" ++ text ++ "\" after expression"

/-- The complaint about a fault. -/
def complaint (fault : GrammarFault) : Complaint := ⟨.grammar, fault.message⟩

end GrammarFault

end Lox
