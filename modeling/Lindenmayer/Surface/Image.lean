import Lindenmayer.Folder
import Lindenmayer.Surface.Strokes
import Lindenmayer.Text.Blank

/-!
# Images

The image of some segments is fitted to all of them with room on every side, and cut to its shape
whenever it is painted. The ending of its file name decides the format; a name without an ending gets
the default one. A format that is written while it is painted opens its file before that, and if the
picture cannot be cut the file stays as it is; the other formats open their file when the picture is
painted. Without a screen the picture has already been painted once before the file is thought of.
-/
namespace Lindenmayer

inductive ImageError where
  /-- A limit of the view would not be finite. -/
  | notFinite
  | unknownFormat
  | noPath
  | path (e : PathError)
  /-- A limit of the view would not be finite, but the file is open already. It has its name if it
  lies in the working folder. -/
  | unpainted (file : Option (List Char))

namespace Image

/-- The endings of the formats that can be written. -/
def formats : List String :=
  ["avif", "eps", "gif", "jpg", "jpeg", "pdf", "pgf", "png", "ps", "raw", "rgba", "svg", "svgz",
    "tif", "tiff", "webp"]

def defaultFormat : List Char := "png".toList

def defaultName : List Char := "segment_plot.png".toList

/-- The part of a path after its last slash. -/
def baseName (path : List Char) : List Char := (path.reverse.takeWhile (· ≠ '/')).reverse

/-- The characters after the last point of a file name. Points at its beginning do not count. -/
def ending (path : List Char) : List Char :=
  let name := (baseName path).dropWhile (· = '.')
  if name.contains '.' then (name.reverse.takeWhile (· ≠ '.')).reverse else []

/-- The path that an image is written to: one without an ending loses the points at its end and
gets the default ending. -/
def path (given : List Char) : List Char :=
  if (ending given).isEmpty then
    Text.dropEnd (· = '.') given ++ '.' :: defaultFormat
  else given

/-- Endings are compared without regard to case, and an empty one stands for the default. -/
def isKnownFormat (e : List Char) : Bool :=
  e.isEmpty || formats.any fun f => f.toList == e.map Char.toLower

/-- The height of an image as a share of its width. -/
def shape : Float := 0.75

/-- The endings of the formats that are written while they are painted. -/
def streamed : List String := ["pdf", "pgf", "svg", "svgz"]

def isStreamed (e : List Char) : Bool := streamed.any fun f => f.toList == e.map Char.toLower

/-- Strokes all segments and fits the view to them, and paints that if it is painted at once. -/
def lay (segments : List Segment) (atOnce : Bool) : Except ViewError Unit × Surface :=
  match (Surface.blank.stroke segments.toArray).fit segments (.real View.defaultMargin) with
  | (.error e, s) => (.error e, s)
  | (.ok (), s) => if atOnce then s.cut shape else (.ok (), s)

/-- What is painted of some segments in the end. -/
def paint (segments : List Segment) (atOnce : Bool) : Except ViewError Unit × Surface :=
  match lay segments atOnce with
  | (.error e, s) => (.error e, s)
  | (.ok (), s) => s.cut shape

/-- Opens the file of an image, which has its name if it lies in the working folder. -/
def openFile (given : List Char) (around : Surroundings) : Except ImageError (Option (List Char)) :=
  if !isPath given then .error .noPath else (around.target (path given)).mapError .path

/-- Draws all segments into an image. The answer is the file and what is painted in it. -/
def draw (segments : List Segment) (given : List Char) (around : Surroundings) :
    Except ImageError (Option (List Char) × Surface) :=
  match lay segments around.paintsAtOnce with
  | (.error _, _) => .error .notFinite
  | (.ok (), s) =>
    if !isKnownFormat (ending given) then .error .unknownFormat
    else if isStreamed (ending given) then
      match openFile given around with
      | .error e => .error e
      | .ok file =>
        match s.cut shape with
        | (.error _, _) => .error (.unpainted file)
        | (.ok (), s) => .ok (file, s)
    else
      match s.cut shape with
      | (.error _, _) => .error .notFinite
      | (.ok (), s) => (openFile given around).map fun file => (file, s)

example : path ['a', '.'] = ['a', '.', 'p', 'n', 'g'] := by decide +kernel

example : path ['.', 'p', 'n', 'g'] = ['.', 'p', 'n', 'g', '.', 'p', 'n', 'g'] := by decide +kernel

end Image

end Lindenmayer
