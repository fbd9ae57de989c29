/-!
# Shapes

A `Shape` describes texts by their characters. Shapes are ordered: of two alternatives the first is preferred, and more
characters to fewer. `Shape.ends` lists what may be left of a text behind a shape, the preferred rest first.
-/

namespace RecordServer

/-- What a text looks like. -/
inductive Shape where
  | empty
  | char (accepts : Char → Bool)
  /-- One character or more. -/
  | many (accepts : Char → Bool)
  | seq (a b : Shape)
  | alt (a b : Shape)
  | optional (s : Shape)

namespace Shape

/-- No text at all. -/
def none : Shape := char fun _ => false

/-- A text itself. -/
def literal : List Char → Shape
  | [] => empty
  | c :: rest => seq (char (· == c)) (literal rest)

/-- One of several shapes. -/
def choice : List Shape → Shape
  | [] => none
  | [s] => s
  | s :: rest => alt s (choice rest)

/-- What may be left of a text of which one character or more are accepted. -/
def endsOfMany (accepts : Char → Bool) : List Char → List (List Char)
  | [] => []
  | c :: rest => if accepts c then endsOfMany accepts rest ++ [rest] else []

/-- What may be left of a text behind a shape, the preferred rest first. -/
def ends : Shape → List Char → List (List Char)
  | empty, cs => [cs]
  | char accepts, cs =>
    match cs with
    | [] => []
    | c :: rest => if accepts c then [rest] else []
  | many accepts, cs => endsOfMany accepts cs
  | seq a b, cs => (ends a cs).flatMap (ends b)
  | alt a b, cs => ends a cs ++ ends b cs
  | optional s, cs => ends s cs ++ [cs]

end Shape

end RecordServer
