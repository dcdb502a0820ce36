/-!
# Outlines

An outline shows a value as nested items, one item a line, each level indented by four spaces.
-/

namespace LispReader

inductive Outline where
  | leaf (text : String)
  /-- A value with its name in front. -/
  | field (label : String) (value : Outline)
  /-- Items, each followed by a comma, between `opening` and `closing`. -/
  | node (opening : String) (items : List Outline) (closing : String)

namespace Outline

def indentation (level : Nat) : String := String.ofList (List.replicate (4 * level) ' ')

mutual

/-- The text of an outline whose first line is already indented to `level`. A node without items
stays on one line. -/
def render (level : Nat) : Outline → String
  | .leaf text => text
  | .field label value => label ++ ": " ++ value.render level
  | .node opening [] closing => opening ++ closing
  | .node opening items closing =>
    opening ++ "\n" ++ renderItems (level + 1) items ++ indentation level ++ closing

def renderItems (level : Nat) : List Outline → String
  | [] => ""
  | item :: items =>
    indentation level ++ item.render level ++ ",\n" ++ renderItems level items

end

/-- Items in square brackets. -/
def list (items : List Outline) : Outline := .node "[" items "]"

/-- A name and its arguments in parentheses. -/
def tuple (name : String) (args : List Outline) : Outline := .node (name ++ "(") args ")"

/-- A name and its fields in braces. -/
def fields (name : String) (items : List (String × Outline)) : Outline :=
  .node (name ++ " \x7b") (items.map fun (label, value) => .field label value) "\x7d"

def option : Option Outline → Outline
  | none => .leaf "None"
  | some value => .tuple "Some" [value]

end Outline

end LispReader
