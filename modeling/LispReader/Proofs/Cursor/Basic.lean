import LispReader.Grammar.Program

/-!
# Reading in place

The same grammar, read without taking the input apart: a `Cursor` keeps an index into all the tokens
and counts the levels of nesting that are open. Nothing protects it. A look at a token that is not
there, a look back from the first token and the closing of a level that is not open are slips. Nor is
it built in that a reading comes to an end: each call takes a unit of fuel, and a reading that runs out
of it is `none`. The trail says what the index and the depth have been.
-/

namespace LispReader

open Grammar

structure Cursor where
  tokens : List Token
  index : Nat
  /-- How many levels are open. -/
  depth : Nat
  diagnostics : List Diagnostic
  /-- The index and the depth after each change of one of them, in order. -/
  trail : List (Nat × Nat)

namespace Cursor

/-- What must not happen. -/
inductive Slip where
  | noToken
  | noTokenBefore
  | noOpenLevel

/-- All the tokens, with an end behind them if the last one is none. -/
def complete (tokens : List Token) : List Token :=
  if tokens.getLast?.any (·.kind = .eof) then tokens
  else tokens ++ [.atEnd ⟨(tokens.getLast?.map (·.pos.line)).getD 1, 0⟩]

def start (tokens : List Token) : Cursor := ⟨complete tokens, 0, 0, [], []⟩

def forward (c : Cursor) : Cursor :=
  { c with index := c.index + 1, trail := c.trail ++ [(c.index + 1, c.depth)] }

def setDepth (c : Cursor) (depth : Nat) : Cursor :=
  { c with depth := depth, trail := c.trail ++ [(c.index, depth)] }

def addDiagnostic (c : Cursor) (diagnostic : Diagnostic) : Cursor :=
  { c with diagnostics := c.diagnostics ++ [diagnostic] }

end Cursor

/-- What stops a reading, and the token to blame. -/
structure Blame where
  problem : Problem
  token : Token

abbrev Machine := StateT Cursor (ExceptT Cursor.Slip Option)

abbrev Reading := ExceptT Blame Machine

namespace Machine

def ofStep {α : Type} (step : Cursor → Except Cursor.Slip (α × Cursor)) : Machine α :=
  fun c => ExceptT.mk (some (step c))

/-- The fuel has run out. -/
def unfinished {α : Type} : Machine α := fun _ => ExceptT.mk none

def peek : Machine Token := ofStep fun c =>
  match c.tokens[c.index]? with
  | some token => .ok (token, c)
  | none => .error .noToken

def previous : Machine Token := ofStep fun c =>
  match c.index with
  | 0 => .error .noTokenBefore
  | before + 1 =>
    match c.tokens[before]? with
    | some token => .ok (token, c)
    | none => .error .noToken

def report (token : Token) (problem : Problem) : Machine Unit := ofStep fun c =>
  .ok ((), c.addDiagnostic (.ofToken token problem.message))

def forward : Machine Unit := ofStep fun c => .ok ((), c.forward)

def depth : Machine Nat := ofStep fun c => .ok (c.depth, c)

def openLevel : Machine Unit := ofStep fun c => .ok ((), c.setDepth (c.depth + 1))

def closeLevel : Machine Unit := ofStep fun c =>
  match c.depth with
  | 0 => .error .noOpenLevel
  | below + 1 => .ok ((), c.setDepth below)

def isAtEnd : Machine Bool := do
  return (← peek).kind = .eof

/-- Moves on unless the end has been reached, and looks back. -/
def advance : Machine Token := do
  unless ← isAtEnd do forward
  previous

def check (kind : Token.Kind) : Machine Bool := do
  if ← isAtEnd then return false
  return (← peek).kind = kind

/-- A look at the token after the next one, if there is any. -/
def checkNext (kind : Token.Kind) : Machine Bool := ofStep fun c =>
  .ok (c.tokens[c.index + 1]?.any (·.kind = kind), c)

/-- Has a list of declarations come to its end, or the input? -/
def isAtClose : Machine Bool := do
  if ← check .rightParen then return true
  isAtEnd

def startsDefinition : Machine Bool := do
  if ← check .leftParen then checkNext (.keyword .define) else return false

/-- Is this behind a semicolon or before the opening of a declaration? -/
def mayResume : Machine Bool := do
  if (← previous).kind = .semicolon then return true
  if ← check (.keyword .cond) then return true
  startsDefinition

def resume : Nat → Machine Unit
  | 0 => unfinished
  | fuel + 1 => do
    if ← isAtEnd then return
    if ← mayResume then return
    let _ ← advance
    resume fuel

end Machine

namespace Reading

open Machine

variable {α σ : Type}

def unfinished : Reading α := (Machine.unfinished : Machine (Except Blame α))

def blame (problem : Problem) : Reading α := do
  throw ⟨problem, ← peek⟩

/-- Reads a token if `select` takes it. -/
def accept (select : Token → Option σ) : Reading (Option σ) := do
  if ← isAtEnd then return none
  match select (← peek) with
  | none => return none
  | some _ => return select (← advance)

def expect (kind : Token.Kind) (problem : Problem) : Reading Token := do
  match ← accept (Rule.ofKind kind) with
  | some token => return token
  | none => blame problem

/-- One level deeper, if there is one left. -/
def enter : Reading Unit := do
  if (← depth) = maxNesting then blame .nestingTooDeep
  openLevel

/-- Closes the level whatever came of `m`. -/
def closing (m : Reading α) : Reading α :=
  (do
    let outcome ← m.run
    closeLevel
    return outcome : Machine (Except Blame α))

def nested (m : Reading α) : Reading α := do
  enter
  closing m

/-- Reports what stopped `m`, and goes on where a declaration may begin. -/
def recovering (fuel : Nat) (m : Reading α) : Reading (Option α) :=
  (do
    match ← m.run with
    | .ok a => return .ok (some a)
    | .error blame =>
      report blame.token blame.problem
      let _ ← advance
      resume fuel
      return .ok none : Machine (Except Blame (Option α)))

def noteExcess (tooMany : Problem) (count : Nat) : Reading Unit := do
  if count = maxListLength then report (← peek) tooMany

def parameter : Reading Symbol := do
  return .ofToken (← expect .identifier .parameterMissing)

def moreParameters : Nat → List Symbol → Reading (List Symbol)
  | 0, _ => unfinished
  | fuel + 1, params => do
    match ← accept (Rule.ofKind .comma) with
    | none => return params
    | some _ =>
      noteExcess .parametersTooMany params.length
      moreParameters fuel (params ++ [← parameter])

def parameters (fuel : Nat) : Reading (List Symbol) := do
  if ← check .rightParen then return []
  moreParameters fuel [← parameter]

mutual

def primary : Nat → Reading Expr
  | 0 => unfinished
  | fuel + 1 => do
    match ← accept Start.ofToken? with
    | none => blame .expressionMissing
    | some .misfit => throw ⟨.expressionMissing, ← previous⟩
    | some (.constant value) => return .constant value
    | some (.name symbol) => return .name symbol
    | some .group =>
      let inner ← nested (expression fuel)
      let _ ← expect .rightParen .groupUnclosed
      return .group inner

def moreArguments : Nat → List Expr → Reading (List Expr)
  | 0, _ => unfinished
  | fuel + 1, args => do
    match ← accept (Rule.ofKind .comma) with
    | none => return args
    | some _ =>
      noteExcess .argumentsTooMany args.length
      moreArguments fuel (args ++ [← nested (expression fuel)])

def arguments : Nat → Reading (List Expr)
  | 0 => unfinished
  | fuel + 1 => do
    if ← check .rightParen then return []
    moreArguments fuel [← nested (expression fuel)]

def moreCalls : Nat → Expr → Reading Expr
  | 0, _ => unfinished
  | fuel + 1, callee => do
    match ← accept (Rule.ofKind .leftParen) with
    | none => return callee
    | some _ =>
      let args ← arguments fuel
      let close ← expect .rightParen .argumentsUnclosed
      moreCalls fuel (.call callee close.pos args)

def call : Nat → Reading Expr
  | 0 => unfinished
  | fuel + 1 => do moreCalls fuel (← primary fuel)

def unary : Nat → Reading Expr
  | 0 => unfinished
  | fuel + 1 => do
    match ← accept (Rule.ofKind .minus) with
    | some sign => return .negate sign.pos (← nested (unary fuel))
    | none => call fuel

def moreOperators : Nat → Nat → Expr → Reading Expr
  | 0, _, _ => unfinished
  | fuel + 1, rank, left => do
    match ← accept (operatorOfRank rank) with
    | none => return left
    | some (op, pos) => moreOperators fuel rank (.binary op pos left (← binary fuel rank))

def binary : Nat → Nat → Reading Expr
  | 0, _ => unfinished
  | fuel + 1, 0 => unary fuel
  | fuel + 1, rank + 1 => do moreOperators fuel rank (← binary fuel rank)

def expression : Nat → Reading Expr
  | 0 => unfinished
  | fuel + 1 => do
    let left ← binary fuel Operator.ranks
    match ← accept (Rule.ofKind .equal) with
    | none => return left
    | some equal =>
      let value ← nested (expression fuel)
      match left with
      | .name symbol => return .assign symbol value
      | .get object attr => return .set object attr value
      | other =>
        report equal .targetInvalid
        return other

end

def statement : Nat → Reading Stmt
  | 0 => unfinished
  | fuel + 1 => do
    match ← accept (Rule.ofKind (.keyword .cond)) with
    | none =>
      let value ← expression fuel
      let _ ← expect .semicolon .semicolonMissing
      return .expr value
    | some _ =>
      let _ ← expect .leftParen .conditionUnopened
      let test ← expression fuel
      let _ ← expect .rightParen .conditionUnclosed
      let yes ← nested (statement fuel)
      match ← accept (Rule.ofKind (.keyword .otherwise)) with
      | none => return .cond test yes
      | some _ => return .condElse test yes (← nested (statement fuel))

mutual

def definition : Nat → Reading Stmt
  | 0 => unfinished
  | fuel + 1 => do
    let symbol := Symbol.ofToken (← expect .identifier .nameMissing)
    match ← accept (Rule.ofKind .leftParen) with
    | some _ => nested (function fuel symbol)
    | none =>
      match ← accept (Rule.ofKind .equal) with
      | none =>
        let _ ← expect .rightParen .definitionUnclosed
        return .define symbol none
      | some _ =>
        let value ← expression fuel
        let _ ← expect .rightParen .definitionUnclosed
        return .define symbol (some value)

def definitionOrStatement : Nat → Reading Stmt
  | 0 => unfinished
  | fuel + 1 => do
    if ← startsDefinition then
      let _ ← advance
      let _ ← advance
      definition fuel
    else statement fuel

def declaration : Nat → Reading (Option Stmt)
  | 0 => unfinished
  | fuel + 1 => recovering fuel (definitionOrStatement fuel)

def block : Nat → Reading (List Stmt)
  | 0 => unfinished
  | fuel + 1 => do
    if ← isAtClose then return []
    let found ← declaration fuel
    return found.toList ++ (← block fuel)

def function : Nat → Symbol → Reading Stmt
  | 0, _ => unfinished
  | fuel + 1, symbol => do
    let params ← parameters fuel
    let _ ← expect .rightParen .parametersUnclosed
    let body ← block fuel
    let _ ← expect .rightParen .bodyUnclosed
    return .function symbol params body

end

def program : Nat → Reading (List Stmt)
  | 0 => unfinished
  | fuel + 1 => do
    if ← isAtEnd then return []
    let found ← declaration fuel
    return found.toList ++ (← program fuel)

end Reading

end LispReader
