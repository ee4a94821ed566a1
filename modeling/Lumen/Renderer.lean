import Lumen.Source

/-!
# Rendering complaints

With colours on, a complaint is drawn over several lines around the piece of the text that it is
about. How that looks is left open; a complaint that cannot be drawn, like every one with colours
off, is a line with the position of the piece.
-/

namespace Lumen

/-- What a complaint is drawn from. -/
structure Drawing where
  message : String
  code : String
  name : String
  text : List Char
  span : Span

/-- How complaints are drawn, as far as they can be. -/
class Graphics where
  draw? : Drawing → Option String

namespace Graphics

/-- Where nothing can be drawn. -/
scoped instance plain : Graphics := ⟨fun _ => none⟩

end Graphics

/-- Renders the complaints about a source. The name stands before positions. -/
structure Renderer where
  name : String
  source : Source
  color : Bool

namespace Renderer

/-- A complaint on one line, with its one-based position. -/
def plain (r : Renderer) (d : Diagnostic) : String :=
  let p := r.source.lineMap.position d.span.start
  s!"{r.name}({p.line + 1}, {p.column + 1}): {d.message}"

def drawing (r : Renderer) (d : Diagnostic) : Drawing :=
  ⟨d.message, s!"LM{d.code}", r.name, r.source.text, d.span⟩

def render [Graphics] (r : Renderer) (d : Diagnostic) : String :=
  if r.color then (Graphics.draw? (r.drawing d)).getD (r.plain d) else r.plain d

end Renderer

end Lumen
