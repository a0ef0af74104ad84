import Lindenmayer.Session.Run

/-!
# A session in a window

A window shows a session: it takes its first size, waits for one frame, begins to listen, runs once
and stays open. Until it listens, an event can do no more than give the canvas another size.
-/
namespace Lindenmayer

inductive WindowEvent where
  | key (name : Option (List Char))
  | resize (size : Option Canvas)
  | close

def WindowEvent.command : WindowEvent → SessionCommand
  | key name => .key name
  | resize size => .resize size
  | close => .close

namespace Session

/-- The size of a new window in pixels. -/
def windowSize : Canvas := .ofPixels 640 480

/-- The canvas after events that nobody listens to. -/
def unheard (canvas : Canvas) (events : List WindowEvent) : Canvas :=
  events.foldl (fun canvas e =>
    match e with
    | .resize (some size) => size
    | _ => canvas) canvas

/-- The session of a window that has begun to listen. The first occasion of the schedule is the
wait before that. -/
def opened (config : Config) (batch delay : Numeric) (limit : Limit)
    (events : Schedule WindowEvent) : Session :=
  new config batch delay limit (unheard windowSize events.next.1)
    (events.next.2.map WindowEvent.command)

/-- The session after its one run in the given mode. -/
def shown (config : Config) (mode : Value) (batch delay : Numeric) (limit : Limit)
    (events : Schedule WindowEvent) : Session :=
  (opened config batch delay limit events).command (.run (some mode))

end Session

end Lindenmayer
