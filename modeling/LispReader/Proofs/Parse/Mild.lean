import LispReader.Proofs.Parse.Append

/-!
# Mild faults

An invalid target of an assignment and a list that is too long are reported, but the statement is
read to its end and kept. `Parse.ofTokens_draft` tells what an expression with such targets becomes,
`Parse.ofTokens_lists` what a call and a function with a list of any length become.
-/

namespace LispReader

namespace Grammar

open Syntax

theorem DeclPiece.ne_eof {p : Piece Stmt} (h : DeclPiece p) (shallow : p.nesting ≤ maxNesting) :
    ∀ token ∈ p.tokens, token.kind ≠ .eof := by
  have reads := reads_program (List.forall_mem_singleton.mpr h)
  have strict := reads.strict (by simpa [Piece.nesting_mapM_id, Piece.deepest] using shallow)
  obtain ⟨read, same, sentence⟩ := (follows_program _).ok strict
  have none := sentence.ne_eof rfl
  rw [List.append_nil, List.append_nil] at same
  rw [← same] at none
  simpa using none

theorem makes_exprStmt {contents : Contents Expr} {semicolon : Token}
    (h : Makes (ExprPiece .whole) contents) (same : semicolon.kind = .semicolon) :
    Makes DeclPiece ⟨.expr contents.value, contents.tokens ++ [semicolon], contents.nesting,
      contents.faults⟩ := by
  obtain ⟨p, piece, has⟩ := h
  refine ⟨_, .statement (.expr piece same), ?_, ?_, ?_, ?_⟩
  · simp [Piece.exprStmt, has.value]
  · simp [Piece.exprStmt, has.tokens]
  · simp [Piece.exprStmt, has.nesting]
  · exact has.records.bind_nil ((Piece.records_token _).bind (Piece.records_pure _))

end Grammar

open Grammar Syntax

namespace Parse

variable {rest : List Token}

/-- A single statement is read as its contents tell, and its faults are all that is reported. -/
theorem ofTokens_of_makes {contents : Contents Stmt} (makes : Makes DeclPiece contents)
    (shallow : contents.nesting ≤ maxNesting) (ends : ∀ token ∈ rest.head?, token.kind = .eof) :
    ofTokens (contents.tokens ++ rest) =
      ⟨[contents.value], contents.faults.map Fault.diagnostic⟩ := by
  obtain ⟨p, piece, has⟩ := makes
  rw [← has.nesting] at shallow
  have whole : input (contents.tokens ++ rest) = contents.tokens := by
    rw [← has.tokens]
    cases rest with
    | nil => simpa [input] using @input_append p.tokens [] (piece.ne_eof shallow)
    | cons last rest => exact input_ended (piece.ne_eof shallow) (ends last rfl) rest
  have run := run_program (List.forall_mem_singleton.mpr piece) (by simpa [Piece.deepest] using shallow)
  have run : program.run (input (contents.tokens ++ rest)) = ⟨.ok [contents.value], p.notes, []⟩ := by
    simpa [whole, has.tokens, has.value] using run
  rw [ofTokens_of_run run]
  exact congrArg _ (has.records.diagnostics _)

/-! ### Invalid targets -/

/-- Every assignment to something other than a name is repaired and reported at its equal sign, and
nothing else is. -/
theorem ofTokens_draft {draft : Draft} {tokens : List Token} {semicolon : Token}
    (written : draft.Written tokens) (proper : draft.Proper) (shallow : draft.nesting ≤ maxNesting)
    (closed : semicolon.kind = .semicolon) (ends : ∀ token ∈ rest.head?, token.kind = .eof) :
    ofTokens (tokens ++ semicolon :: rest) =
      ⟨[.expr draft.repaired], draft.misplaced.map (.ofToken · "Invalid assignment target.")⟩ := by
  obtain ⟨p, piece, has⟩ := makes_draft written proper
  have parse := ofTokens_of_makes (makes_exprStmt ⟨p, piece.to_whole, has⟩ closed) shallow ends
  rw [Contents.ofDraft, List.append_assoc, List.map_map] at parse
  exact parse

/-- In `-x = (y = nil = z);` the outer assignment is reported after the one in its value. -/
theorem ofTokens_draft_nested :
    let outer : Token := ⟨.equal, "=", none, ⟨1, 3⟩⟩
    let inner : Token := ⟨.equal, "=", none, ⟨1, 14⟩⟩
    ofTokens [⟨.minus, "-", none, ⟨1, 0⟩⟩, ⟨.identifier, "x", none, ⟨1, 1⟩⟩, outer,
        ⟨.leftParen, "(", none, ⟨1, 5⟩⟩, ⟨.identifier, "y", none, ⟨1, 6⟩⟩,
        ⟨.equal, "=", none, ⟨1, 8⟩⟩, ⟨.keyword .nil, "nil", none, ⟨1, 10⟩⟩, inner,
        ⟨.identifier, "z", none, ⟨1, 16⟩⟩, ⟨.rightParen, ")", none, ⟨1, 17⟩⟩,
        ⟨.semicolon, ";", none, ⟨1, 18⟩⟩] =
      ⟨[.expr (.negate ⟨1, 0⟩ (.name ⟨"x", ⟨1, 1⟩⟩))],
        [.ofToken inner "Invalid assignment target.", .ofToken outer "Invalid assignment target."]⟩ := by
  intro outer inner
  let minus : Token := ⟨.minus, "-", none, ⟨1, 0⟩⟩
  let x : Token := ⟨.identifier, "x", none, ⟨1, 1⟩⟩
  let opening : Token := ⟨.leftParen, "(", none, ⟨1, 5⟩⟩
  let y : Token := ⟨.identifier, "y", none, ⟨1, 6⟩⟩
  let middle : Token := ⟨.equal, "=", none, ⟨1, 8⟩⟩
  let nothing : Token := ⟨.keyword .nil, "nil", none, ⟨1, 10⟩⟩
  let z : Token := ⟨.identifier, "z", none, ⟨1, 16⟩⟩
  let closing : Token := ⟨.rightParen, ")", none, ⟨1, 17⟩⟩
  let right : Draft := .assign (.constant .nil) inner (.name (.ofToken z))
  let left : Draft := .negate minus.pos (.name (.ofToken x))
  let value : Draft := .group (.assign (.name (.ofToken y)) middle right)
  have writtenRight : right.Written [nothing, inner, z] :=
    .assign (@Draft.Written.constant .nil nothing rfl) rfl (.name rfl)
  have writtenValue : value.Written [opening, y, middle, nothing, inner, z, closing] :=
    @Draft.Written.group opening closing _ _ rfl (.assign (.name rfl) rfl writtenRight) rfl
  have writtenLeft : left.Written [minus, x] := @Draft.Written.negate minus _ _ rfl (.name rfl)
  have written : (Draft.assign left outer value).Written _ := .assign writtenLeft rfl writtenValue
  have proper : (Draft.assign left outer value).Proper :=
    .assign (by decide) (.negate (by decide) (.name _))
      (.group (.assign (by decide) (.name _) (.assign (by decide) (.constant _) (.name _))))
  exact ofTokens_draft written proper (by decide) rfl (by simp)

/-! ### Lists of any length -/

end Parse

/-- A call that stands as a statement, with any number of arguments. -/
structure CallStmt where
  callee : Expr
  front : List Token
  opening : Token
  args : Listing (Expr × List Token)
  closing : Token
  semicolon : Token
  written : callee.Written front
  proper : callee.Proper
  tight : callee.looseness ≤ 1
  shallow : callee.nesting ≤ maxNesting
  opened : opening.kind = .leftParen
  separated : args.Separated
  each : ∀ arg ∈ args.items, arg.1.Written arg.2 ∧ arg.1.Proper ∧ arg.1.nesting < maxNesting
  closed : closing.kind = .rightParen
  ended : semicolon.kind = .semicolon

namespace CallStmt

def stmt (call : CallStmt) : Stmt :=
  .expr (.call call.callee call.closing.pos (call.args.items.map Prod.fst))

def tokens (call : CallStmt) : List Token :=
  call.front ++ call.opening :: call.args.tokens Prod.snd ++ [call.closing, call.semicolon]

end CallStmt

/-- A definition of a function, with any number of parameters. -/
structure FunctionStmt where
  opening : Token
  define : Token
  name : Token
  first : Token
  params : Listing Token
  closing : Token
  body : List (Stmt × List Token)
  last : Token
  opened : opening.kind = .leftParen
  defines : define.kind = .keyword .define
  named : name.kind = .identifier
  begun : first.kind = .leftParen
  separated : params.Separated
  names : ∀ param ∈ params.items, param.kind = .identifier
  closed : closing.kind = .rightParen
  each : ∀ part ∈ body, part.1.Written part.2 ∧ part.1.Proper ∧ part.1.nesting < maxNesting
  ended : last.kind = .rightParen

namespace FunctionStmt

def stmt (f : FunctionStmt) : Stmt :=
  .function (.ofToken f.name) (f.params.items.map .ofToken) (f.body.map Prod.fst)

def tokens (f : FunctionStmt) : List Token :=
  f.opening :: f.define :: f.name :: f.first :: f.params.tokens ([·]) ++
    f.closing :: f.body.flatMap Prod.snd ++ [f.last]

end FunctionStmt

namespace Parse

variable {rest : List Token}

/-- Nothing is reported, or only the first token of the one item that the limit leaves no room for. -/
def Surplus (message : String) (items : List (List Token)) (found : List Diagnostic) : Prop :=
  match items[maxListLength]? with
  | none => found = []
  | some tokens => ∃ first, tokens.head? = some first ∧ found = [.ofToken first message]

theorem surplus_list {α : Type} {tooMany : Problem} {items : Listing (Contents α)}
    (each : ∀ item ∈ items.items, item.tokens ≠ [] ∧ item.faults = []) :
    Surplus tooMany.message (items.items.map Contents.tokens)
      ((Contents.list tooMany items).faults.map Fault.diagnostic) := by
  have faults := @listFaults_of_clean α tooMany 0 items.items fun item known => (each item known).2
  rw [if_pos (Nat.zero_le _), Nat.sub_zero] at faults
  rw [Surplus, Contents.list, faults, List.getElem?_map]
  cases known : items.items[maxListLength]? with
  | none => rfl
  | some item =>
    obtain ⟨first, rest, tokens⟩ :=
      List.exists_cons_of_ne_nil (each item (List.mem_of_getElem? known)).1
    exact ⟨first, by simp [tokens], by simp [tokens, Fault.diagnostic]⟩

/-- Arguments as a call reads them. -/
def arguments (args : Listing (Expr × List Token)) : Listing (Contents Expr) :=
  args.map fun arg => (Contents.ofExpr arg.1 arg.2).deeper

theorem call_ofExpr {callee : Expr} {front : List Token} {args : Listing (Expr × List Token)}
    {opening closing : Token} :
    Contents.call (.ofExpr callee front) opening (args.map fun arg => .ofExpr arg.1 arg.2) closing =
      { value := .call callee closing.pos (args.items.map Prod.fst)
        tokens := front ++ opening :: args.tokens Prod.snd ++ [closing]
        nesting := max callee.nesting (Expr.listNesting (args.items.map Prod.fst))
        faults := (Contents.list .argumentsTooMany (arguments args)).faults } := by
  simp [Contents.call, Contents.list, Contents.ofExpr, Contents.deeper, arguments,
    Expr.listNesting_eq_foldr, Listing.tokens_map, Function.comp_def]

theorem ofTokens_callStmt (call : CallStmt) (ends : ∀ token ∈ rest.head?, token.kind = .eof) :
    ∃ found, ofTokens (call.tokens ++ rest) = ⟨[call.stmt], found⟩ ∧
      Surplus "Can't have more than 255 arguments." (call.args.items.map Prod.snd) found := by
  obtain ⟨p, piece, has⟩ := makes_expr call.written call.proper
  have parts : ∀ arg ∈ call.args.items, Makes (ExprPiece .whole) (.ofExpr arg.1 arg.2) := by
    intro arg known
    obtain ⟨written, proper, -⟩ := call.each arg known
    obtain ⟨q, item, has⟩ := makes_expr written proper
    exact ⟨q, item.to_whole, has⟩
  obtain ⟨q, whole, contents⟩ := makes_call ⟨p, piece.loosen call.tight, has⟩ call.opened
    (Listing.separated_map.mpr call.separated) call.closed
    (by rwa [Listing.items_map, List.forall_mem_map])
  rw [call_ofExpr] at contents
  have within : Expr.listNesting (call.args.items.map Prod.fst) ≤ maxNesting := by
    apply Expr.listNesting_le
    rw [List.forall_mem_map]
    exact fun arg known => (call.each arg known).2.2
  have parse := ofTokens_of_makes
    (makes_exprStmt ⟨q, @ExprPiece.to_whole q 1 whole, contents⟩ call.ended)
    (Nat.max_le.mpr ⟨call.shallow, within⟩) ends
  have clean : ∀ arg ∈ (arguments call.args).items, arg.tokens ≠ [] ∧ arg.faults = [] := by
    rw [arguments, Listing.items_map, List.forall_mem_map]
    exact fun arg known => ⟨(parts arg known).tokens_ne_nil, rfl⟩
  have surplus := @surplus_list Expr .argumentsTooMany _ clean
  have texts : (arguments call.args).items.map Contents.tokens = call.args.items.map Prod.snd := by
    simp [arguments, Contents.ofExpr, Contents.deeper, Function.comp_def]
  rw [texts] at surplus
  exact ⟨_, by simpa [CallStmt.tokens, CallStmt.stmt] using parse, surplus⟩

theorem ofTokens_functionStmt (f : FunctionStmt) (ends : ∀ token ∈ rest.head?, token.kind = .eof) :
    ∃ found, ofTokens (f.tokens ++ rest) = ⟨[f.stmt], found⟩ ∧
      Surplus "Can't have more than 255 parameters." (f.params.items.map ([·])) found := by
  have makes := makes_function f.opened f.defines f.named f.begun f.separated f.names f.closed
    (fun part known => exists_declPiece (f.each part known).1 (f.each part known).2.1) f.ended
  have within : Stmt.listNesting (f.body.map Prod.fst) + 1 ≤ maxNesting := by
    refine Nat.succ_le_succ (Stmt.listNesting_le ?_)
    rw [List.forall_mem_map]
    exact fun part known => Nat.le_of_lt_succ (f.each part known).2.2
  have parse := ofTokens_of_makes makes within ends
  have clean : ∀ param ∈ (f.params.map Contents.parameter).items,
      param.tokens ≠ [] ∧ param.faults = [] := by
    rw [Listing.items_map, List.forall_mem_map]
    exact fun param _ => ⟨List.cons_ne_nil _ _, rfl⟩
  have surplus := @surplus_list Symbol .parametersTooMany _ clean
  have texts : (f.params.map Contents.parameter).items.map Contents.tokens =
      f.params.items.map ([·]) := by
    simp [Contents.parameter, Function.comp_def]
  rw [texts] at surplus
  exact ⟨_, parse, surplus⟩

/-- A list is kept whole, be it of arguments or of parameters, and reported once if it is too long. -/
theorem ofTokens_lists (ends : ∀ token ∈ rest.head?, token.kind = .eof) :
    (∀ call : CallStmt, ∃ found, ofTokens (call.tokens ++ rest) = ⟨[call.stmt], found⟩ ∧
      Surplus "Can't have more than 255 arguments." (call.args.items.map Prod.snd) found) ∧
    ∀ f : FunctionStmt, ∃ found, ofTokens (f.tokens ++ rest) = ⟨[f.stmt], found⟩ ∧
      Surplus "Can't have more than 255 parameters." (f.params.items.map ([·])) found :=
  ⟨fun call => ofTokens_callStmt call ends, fun f => ofTokens_functionStmt f ends⟩

def mark (kind : Token.Kind) (lexeme : String) : Token := ⟨kind, lexeme, none, ⟨1, 0⟩⟩

def nameAt (col : Nat) : Token := ⟨.identifier, "x", none, ⟨1, col⟩⟩

/-- A list of names, `count` of them behind the first. -/
def names (count : Nat) : Listing Token :=
  .some (nameAt 0) ((List.range count).map fun col => (mark .comma ",", nameAt (col + 1)))

theorem separated_names (count : Nat) : (names count).Separated := by
  rw [names, Listing.Separated, List.forall_mem_map]
  exact fun _ _ => rfl

theorem items_names (count : Nat) : (names count).items = (List.range (count + 1)).map nameAt := by
  rw [names, Listing.items, List.map_map, List.range_succ_eq_map, List.map_cons, List.map_map]
  rfl

def surplusCall : CallStmt where
  callee := .name (.ofToken (nameAt 0))
  front := [nameAt 0]
  opening := mark .leftParen "("
  args := (names 255).map fun name => (.name (.ofToken name), [name])
  closing := mark .rightParen ")"
  semicolon := mark .semicolon ";"
  written := .name rfl
  proper := .name _
  tight := Nat.zero_le 1
  shallow := Nat.zero_le _
  opened := rfl
  separated := Listing.separated_map.mpr (separated_names 255)
  each := by
    rw [Listing.items_map, items_names, List.map_map, List.forall_mem_map]
    exact fun col _ => ⟨.name rfl, .name _, Nat.zero_lt_succ _⟩
  closed := rfl
  ended := rfl

def surplusFunction : FunctionStmt where
  opening := mark .leftParen "("
  define := mark (.keyword .define) "Define"
  name := nameAt 0
  first := mark .leftParen "("
  params := names 255
  closing := mark .rightParen ")"
  body := [(.expr (.name (.ofToken (nameAt 0))), [nameAt 0, mark .semicolon ";"])]
  last := mark .rightParen ")"
  opened := rfl
  defines := rfl
  named := rfl
  begun := rfl
  separated := separated_names 255
  names := by
    rw [items_names, List.forall_mem_map]
    exact fun _ _ => rfl
  closed := rfl
  each := by
    rw [List.forall_mem_singleton]
    exact ⟨@Stmt.Written.expr _ (mark .semicolon ";") _ (.name rfl) rfl, .expr (.name _),
      Nat.zero_lt_succ _⟩
  ended := rfl

theorem ofTokens_lists_surplus :
    ofTokens surplusCall.tokens = ⟨[surplusCall.stmt],
      [.ofToken (nameAt 255) "Can't have more than 255 arguments."]⟩ ∧
    ofTokens surplusFunction.tokens = ⟨[surplusFunction.stmt],
      [.ofToken (nameAt 255) "Can't have more than 255 parameters."]⟩ := by
  obtain ⟨calls, functions⟩ := @ofTokens_lists [] (by simp)
  have last : ((names 255).items.map ([·]))[maxListLength]? = some [nameAt 255] := by
    rw [items_names, List.map_map, List.getElem?_map, List.getElem?_range (by decide)]
    rfl
  constructor
  · obtain ⟨found, parse, surplus⟩ := calls surplusCall
    have texts : surplusCall.args.items.map Prod.snd = (names 255).items.map ([·]) := by
      rw [surplusCall, Listing.items_map, List.map_map]
      rfl
    rw [Surplus, texts, last] at surplus
    obtain ⟨_, ⟨⟩, rfl⟩ := surplus
    rwa [List.append_nil] at parse
  · obtain ⟨found, parse, surplus⟩ := functions surplusFunction
    have texts : surplusFunction.params.items.map ([·]) = (names 255).items.map ([·]) := rfl
    rw [Surplus, texts, last] at surplus
    obtain ⟨_, ⟨⟩, rfl⟩ := surplus
    rwa [List.append_nil] at parse

end Parse

end LispReader
