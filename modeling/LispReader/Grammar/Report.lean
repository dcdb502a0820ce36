import LispReader.Token.Basic

/-!
# Reports

What the grammar can object to, and the place in the input that is to blame.
-/

namespace LispReader.Grammar

inductive Problem where
  | nameMissing
  | parameterMissing
  | parametersUnclosed
  | definitionUnclosed
  | bodyUnclosed
  | conditionUnopened
  | conditionUnclosed
  | semicolonMissing
  | argumentsUnclosed
  | groupUnclosed
  | expressionMissing
  | nestingTooDeep
  | targetInvalid
  | parametersTooMany
  | argumentsTooMany
deriving DecidableEq

def Problem.message : Problem → String
  | .nameMissing => "Expect variable or function name after 'Define'."
  | .parameterMissing => "Expect parameter name."
  | .parametersUnclosed => "Expect ')' after parameters."
  | .definitionUnclosed => "Expect ')' after variable declaration."
  | .bodyUnclosed => "Expect ')' after block."
  | .conditionUnopened => "Expect '(' after 'Cond'."
  | .conditionUnclosed => "Expect ')' after condition."
  | .semicolonMissing => "Expect ';' after expression."
  | .argumentsUnclosed => "Expect ')' after arguments."
  | .groupUnclosed => "Expect ')' after expression."
  | .expressionMissing => "Expect expression."
  | .nestingTooDeep => "Nesting too deep."
  | .targetInvalid => "Invalid assignment target."
  | .parametersTooMany => "Can't have more than 255 parameters."
  | .argumentsTooMany => "Can't have more than 255 arguments."

/-- A problem and the input from the blamed token on, which is empty if the end is to blame. -/
structure Report where
  problem : Problem
  place : List Token
deriving DecidableEq

end LispReader.Grammar
