import LambdaDiagram.Number.Decimal
import LambdaDiagram.Number.Hypot
import LambdaDiagram.Picture.Frame
import LambdaDiagram.Picture.OfGraph
import LambdaDiagram.Picture.TextMetrics

/-!
Pictures as SVG documents. A document is a sequence of lines: the root element with the frame, the
style sheet, and one element for each primitive in the order of painting.
-/

namespace LambdaDiagram

namespace Svg

/-! ## Text -/

/-- Put a text in the place of each occurrence of a character. -/
def replaceChar (c : Char) (text cs : List Char) : List Char :=
  cs.flatMap fun d => if d = c then text else [d]

/-- A text in which markup is written out. The ampersand goes first, so that those that the other
replacements bring in stay. -/
def escape (text : String) : String :=
  let cs := replaceChar '&' ['&', 'a', 'm', 'p', ';'] text.toList
  let cs := replaceChar '<' ['&', 'l', 't', ';'] cs
  let cs := replaceChar '>' ['&', 'g', 't', ';'] cs
  String.ofList (replaceChar '"' ['&', 'q', 'u', 'o', 't', ';'] cs)

/-- Several texts with a space between. -/
def spaced (texts : List String) : String := " ".intercalate texts

/-- An attribute with the space before it. -/
def attr (name value : String) : String := " " ++ name ++ "=\"" ++ value ++ "\""

/-- The start of an element: its name and its attributes. -/
def openTag (name : String) (attributes : List (String × String)) : String :=
  "<" ++ name ++ String.join (attributes.map fun (key, value) => attr key value)

/-- An element without content. -/
def element (name : String) (attributes : List (String × String)) : String :=
  openTag name attributes ++ " />"

/-! ## Numbers -/

/-- A coordinate in an element has two places. -/
def coordinate (x : Float) : String := Decimal.fixed 2 x

/-- A size in the frame has one place. -/
def size (x : Float) : String := Decimal.fixed 1 x

/-! ## Style -/

/-- A rule of the style sheet. -/
def rule (className : String) (declarations : List (String × String)) : String :=
  "  ." ++ className ++ " \x7b" ++
    String.join (declarations.map fun (key, value) => " " ++ key ++ ": " ++ value ++ ";") ++ " \x7d"

/-- The style sheet. -/
def style : List String :=
  ["<style>",
    rule "group" [("fill", "none"), ("stroke", "#000"), ("stroke-width", "1")],
    rule "input" [("fill", "#fff"), ("stroke", "#000"), ("stroke-width", "1")],
    rule "input-label" [("font-family", "monospace"), ("font-size", "12px"), ("fill", "#000")],
    rule "merge" [("fill", "none"), ("stroke", "#000"), ("stroke-width", "1.5")],
    rule "merge-dot" [("fill", "#000")],
    rule "output" [("fill", "#000"), ("stroke", "#f00"), ("stroke-width", "1.5")],
    "</style>"]

/-! ## Elements -/

/-- The attributes of a circle; a negative radius is drawn as none. -/
def circleAttributes (className : String) (c : Circle Float) : List (String × String) :=
  [("class", className), ("cx", coordinate c.center.x), ("cy", coordinate c.center.y),
    ("r", coordinate (Scalar.larger 0.0 c.radius))]

/-- The class of a disc; that of a merge is a dot. -/
def discClass : Role → String
  | .merge => "merge-dot"
  | role => role.className

/-- The path of a curve. -/
def curvePath (q : Quadratic Float) : String :=
  spaced ["M", coordinate q.start.x, coordinate q.start.y, "Q", coordinate q.control.x,
    coordinate q.control.y, coordinate q.stop.x, coordinate q.stop.y]

/-- The line of a document that paints a primitive. -/
def paint : Primitive Float → String
  | .strokeCircle role c =>
    element "circle" (circleAttributes role.className c ++ [("fill", "none")])
  | .fillCircle role c =>
    element "circle" (circleAttributes (discClass role) c ++ [("stroke", "none")])
  | .line role l =>
    element "line" [("class", role.className), ("x1", coordinate l.start.x),
      ("y1", coordinate l.start.y), ("x2", coordinate l.stop.x), ("y2", coordinate l.stop.y)]
  | .curve role q => element "path" [("class", role.className), ("d", curvePath q)]
  | .label role center text =>
    let origin := TextMetrics.standard.origin center text
    openTag "text" [("class", role.className ++ "-label"), ("x", coordinate origin.x),
      ("y", coordinate origin.y)] ++ ">" ++ escape text ++ "</text>"

/-- The start of the root element. -/
def rootTag (f : Frame Float) : String :=
  openTag "svg" [("xmlns", "http://www.w3.org/2000/svg"), ("width", size f.width),
    ("height", size f.height),
    ("viewBox", spaced [size f.x, size f.y, size f.width, size f.height])] ++ ">"

/-- The lines of the document of a picture. -/
def lines (picture : Picture Float) : List String :=
  rootTag (Frame.ofPicture picture) :: style ++ picture.map paint ++ ["</svg>"]

/-- The document of a picture. -/
def document (picture : Picture Float) : String :=
  String.join ((lines picture).map (· ++ "\n"))

end Svg

/-- The document of a graph. -/
def Graph.toSvg (g : Graph Float) : String := Svg.document g.picture

end LambdaDiagram
