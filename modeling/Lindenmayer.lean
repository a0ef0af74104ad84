import Lindenmayer.Animation.Script
import Lindenmayer.CommandLine.Program
import Lindenmayer.Main
import Lindenmayer.Turtle.Walk
import Lindenmayer.Proofs.Animation.Frames
import Lindenmayer.Proofs.Animation.InFlight
import Lindenmayer.Proofs.Animation.Reentry
import Lindenmayer.Proofs.Animation.Refusals
import Lindenmayer.Proofs.CommandLine.RuleSources
import Lindenmayer.Proofs.CommandLine.Window
import Lindenmayer.Proofs.Expansion.Composition
import Lindenmayer.Proofs.Expansion.Production
import Lindenmayer.Proofs.Rules.RoundTrip
import Lindenmayer.Proofs.Session.Counts
import Lindenmayer.Proofs.Session.Failure
import Lindenmayer.Proofs.Session.Modes
import Lindenmayer.Proofs.Session.Queue
import Lindenmayer.Proofs.Session.Record
import Lindenmayer.Proofs.Session.Rejection
import Lindenmayer.Proofs.Session.Renewal
import Lindenmayer.Proofs.Session.Resize
import Lindenmayer.Proofs.Session.Viewport
import Lindenmayer.Proofs.Session.Waits
import Lindenmayer.Proofs.Surface.Room
import Lindenmayer.Proofs.Turtle.Balance
import Lindenmayer.Proofs.Turtle.Bounds
import Lindenmayer.Proofs.Turtle.Connection
