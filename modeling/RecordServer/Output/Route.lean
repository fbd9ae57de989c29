import RecordServer.Parser.Shape
import RecordServer.Text.Split

/-!
# Routes

A `Route` is the form of the paths that lead to an endpoint: texts between which values of certain shapes stand.
`Route.match?` gives the values in a path. Where a path can be divided in several ways, the first value takes its
preferred text for which the rest of the path fits, and so on.

Ways in which the same part of the path has been matched are the same from there on, so that only the first of them is
followed.
-/

namespace RecordServer

/-- A text, and the shape of each value together with the text behind it. -/
structure Route where
  start : List Char
  parts : List (Shape × List Char)

namespace Route

/-- The route of an endpoint, in which each `?` stands for a value of the next shape. Without a shape for each of them
there are no paths. -/
def ofEndpoint (endpoint : String) (shapes : List Shape) : Route :=
  match Text.pieces '?' endpoint.toList with
  | [] => ⟨[], []⟩
  | first :: pieces => ⟨first, (shapes ++ List.replicate (pieces.length - shapes.length) Shape.none).zip pieces⟩

/-- The rest of a text behind another one. -/
def behind? : List Char → List Char → Option (List Char)
  | [], cs => some cs
  | _ :: _, [] => none
  | a :: text, c :: cs => if a = c then behind? text cs else none

/-- A way to match a part of a path: what is left of the path, and the values, the last one first. -/
structure Way where
  rest : List Char
  values : List (List Char)

/-- The ways on from a way through a value and the text behind it, the preferred one first. -/
def onward (part : Shape × List Char) (w : Way) : List Way :=
  (part.1.ends w.rest).filterMap fun stop =>
    (behind? part.2 stop).map fun rest => ⟨rest, w.rest.take (w.rest.length - stop.length) :: w.values⟩

/-- Keeps a way unless one with the same rest has been kept. -/
def keep (kept : Array Bool × List Way) (w : Way) : Array Bool × List Way :=
  let n := w.rest.length
  if kept.1.getD n false then kept else (kept.1.setIfInBounds n true, w :: kept.2)

/-- The first of the ways to each rest of a path with at most `size` characters. -/
def distinct (size : Nat) (ways : List Way) : List Way :=
  (ways.foldl keep (Array.replicate (size + 1) false, [])).2.reverse

/-- The ways to match a part of a path, of which the beginning has been matched. -/
def follow (size : Nat) (ways : List Way) (parts : List (Shape × List Char)) : List Way :=
  parts.foldl (fun ways part => distinct size (ways.flatMap (onward part))) ways

/-- The values in a path, if it belongs to the route. -/
def match? (r : Route) (path : List Char) : Option (List (List Char)) := do
  let rest ← behind? r.start path
  let way ← (follow path.length [⟨rest, []⟩] r.parts).find? (·.rest.isEmpty)
  return way.values.reverse

end Route

end RecordServer
