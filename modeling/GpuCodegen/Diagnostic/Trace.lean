import GpuCodegen.Diagnostic.Basic
import GpuCodegen.Text.Template

/-!
Traces of what the compiler does. Stages record what happened as values of their own event types;
a trace line is an event's text under the scopes it happened in. A failing stage hands over its
diagnostic together with the events recorded before it.
-/

namespace GpuCodegen

/-- A failure with the events that came before it. -/
structure Stopped (ε : Type) where
  diagnostic : Diagnostic
  log : List ε

namespace Stopped

/-- The failure with its events read as those of an outer stage, after earlier ones. -/
def lift {ε δ : Type} (s : Stopped ε) (before : List δ) (f : ε → δ) : Stopped δ :=
  ⟨s.diagnostic, before ++ s.log.map f⟩

end Stopped

/-- A line of a trace under its scopes, outermost first. -/
structure TraceLine where
  scopes : List String := []
  /-- The template of the text. -/
  text : String
  /-- What the text shows. -/
  values : List Text.Value := []

namespace TraceLine

/-- The line as it is printed, with its line end. The names of the scopes are part of the template,
so a directive in a name shows a value of the line. -/
def render (l : TraceLine) : String :=
  Text.fill ("DEBUG: " ++ String.join (l.scopes.map fun s => s ++ ": ") ++ l.text ++ "\n") l.values

/-- The line under one more scope. -/
def under (scope : String) (l : TraceLine) : TraceLine := { l with scopes := scope :: l.scopes }

/-- The printed form of several lines. -/
def renderAll (lines : List TraceLine) : String := String.join (lines.map render)

end TraceLine

/-- A printer of trace lines under scopes, outermost first. A tracer that is off stays silent. -/
structure Tracer where
  enabled : Bool
  scopes : List String := []
  deriving DecidableEq, Repr

namespace Tracer

/-- A tracer without scopes; it is on if it is asked to be and has something to write to. -/
def new (hasSink wanted : Bool) : Tracer where
  enabled := hasSink && wanted

/-- The tracer inside one more scope. -/
def within (t : Tracer) (scope : String) : Tracer := { t with scopes := t.scopes ++ [scope] }

/-- What printing some texts writes, one line for each. -/
def print (t : Tracer) (texts : List String) : String :=
  if t.enabled then
    TraceLine.renderAll (texts.map fun text =>
      { scopes := t.scopes, text := "%s", values := [.text text] })
  else
    ""

end Tracer

end GpuCodegen
