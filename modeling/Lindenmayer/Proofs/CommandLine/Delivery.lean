import Lindenmayer.Proofs.CommandLine.Endings
import Lindenmayer.Proofs.Session.Picture

/-!
# What becomes of a drawing

Options that were read have one outcome. Without a drawing the program says why and leaves nothing
behind. With one it prints the counts and does one thing: it skips the drawing, writes the table,
makes the image or shows the window. An image that cannot be made, and a limit or a name of an image
that is left out, break it off behind the counts, and then it leaves nothing behind either, unless
the file of the image was open before it turned out that the picture cannot be painted.
-/
namespace Lindenmayer

/-! ### The rows of a table -/

namespace Segment

end Segment

/-! ### The picture of an image -/

namespace Image

variable {segments : List Segment} {given : List Char} {around : Surroundings}
  {atOnce : Bool} {file : Option (List Char)} {surface laid : Surface}

theorem paint_ok_iff : paint segments atOnce = (.ok (), surface) ↔
    ∃ laid, lay segments atOnce = (.ok (), laid) ∧ laid.cut shape = (.ok (), surface) := by
  rw [paint]
  split
  · next e s hlay => simp [hlay]
  · next s hlay => simp [hlay]

theorem openFile_ok_iff : openFile given around = .ok file ↔
    isPath given = true ∧ around.target (path given) = .ok file := by
  rw [openFile]
  cases isPath given with
  | false => simp
  | true =>
    cases htarget : around.target (path given) with
    | error e => simp [Except.mapError]
    | ok name => simp [Except.mapError]

/-- What is laid out is cut when it is painted. -/
theorem exists_lay (h : (lay segments atOnce).1.isOk = true) :
    ∃ laid, lay segments atOnce = (.ok (), laid) ∧ paint segments atOnce = laid.cut shape := by
  obtain ⟨⟨⟩, hlay⟩ := exists_eq_ok_of_isOk h
  exact ⟨_, hlay, by rw [paint, hlay]⟩

/-- Why some segments do not become an image: they cannot be laid out, the format is unknown, the
file cannot be opened, or the view cannot be cut. Some formats open the file before the view is
cut. -/
inductive Fails (segments : List Segment) (given : List Char) (around : Surroundings) :
    ImageError → Prop where
  | unfit (hfit : (lay segments around.paintsAtOnce).1.isOk = false) :
      Fails segments given around .notFinite
  | format (hfit : (lay segments around.paintsAtOnce).1.isOk = true)
      (hformat : isKnownFormat (ending given) = false) : Fails segments given around .unknownFormat
  | closed (e : ImageError) (hfit : (lay segments around.paintsAtOnce).1.isOk = true)
      (hformat : isKnownFormat (ending given) = true)
      (hcut : isStreamed (ending given) = true ∨
        (paint segments around.paintsAtOnce).1.isOk = true)
      (hopen : openFile given around = .error e) : Fails segments given around e
  | uncut (hfit : (lay segments around.paintsAtOnce).1.isOk = true)
      (hformat : isKnownFormat (ending given) = true)
      (hwhole : isStreamed (ending given) = false)
      (hcut : (paint segments around.paintsAtOnce).1.isOk = false) :
      Fails segments given around .notFinite
  | unpainted (file : Option (List Char)) (hfit : (lay segments around.paintsAtOnce).1.isOk = true)
      (hformat : isKnownFormat (ending given) = true)
      (hstreamed : isStreamed (ending given) = true) (hopen : openFile given around = .ok file)
      (hcut : (paint segments around.paintsAtOnce).1.isOk = false) :
      Fails segments given around (.unpainted file)

theorem Fails.draw_eq {e : ImageError} (h : Fails segments given around e) :
    draw segments given around = .error e := by
  cases h with
  | unfit hfit =>
    obtain ⟨fault, hlay⟩ := exists_eq_error_of_isOk hfit
    rw [draw, hlay]
  | format hfit hformat =>
    obtain ⟨laid, hlay, -⟩ := exists_lay hfit
    simp [draw, hlay, hformat]
  | closed e hfit hformat hcut hopen =>
    obtain ⟨laid, hlay, hpaint⟩ := exists_lay hfit
    cases hstreamed : isStreamed (ending given) with
    | true => simp [draw, hlay, hformat, hstreamed, hopen]
    | false =>
      rw [hstreamed, or_iff_right Bool.false_ne_true] at hcut
      obtain ⟨⟨⟩, hshown⟩ := exists_eq_ok_of_isOk hcut
      simp [draw, hlay, hformat, hstreamed, hopen, hpaint.symm.trans hshown, Except.map]
  | uncut hfit hformat hwhole hcut =>
    obtain ⟨laid, hlay, hpaint⟩ := exists_lay hfit
    obtain ⟨fault, hfault⟩ := exists_eq_error_of_isOk hcut
    simp [draw, hlay, hformat, hwhole, hpaint.symm.trans hfault]
  | unpainted file hfit hformat hstreamed hopen hcut =>
    obtain ⟨laid, hlay, hpaint⟩ := exists_lay hfit
    obtain ⟨fault, hfault⟩ := exists_eq_error_of_isOk hcut
    simp [draw, hlay, hformat, hstreamed, hopen, hpaint.symm.trans hfault]

theorem draw_ok (hpaint : paint segments around.paintsAtOnce = (.ok (), surface))
    (hformat : isKnownFormat (ending given) = true) (hopen : openFile given around = .ok file) :
    draw segments given around = .ok (file, surface) := by
  obtain ⟨laid, hlay, hcut⟩ := paint_ok_iff.1 hpaint
  cases hstreamed : isStreamed (ending given) with
  | true => simp [draw, hlay, hformat, hstreamed, hopen, hcut]
  | false => simp [draw, hlay, hformat, hstreamed, hopen, hcut, Except.map]

/-- Some segments become an image, or there is a reason why not. -/
theorem draw_cases (segments : List Segment) (given : List Char) (around : Surroundings) :
    (∃ e, draw segments given around = .error e ∧ Fails segments given around e) ∨
      ∃ file surface, draw segments given around = .ok (file, surface) ∧
        paint segments around.paintsAtOnce = (.ok (), surface) ∧
        isKnownFormat (ending given) = true ∧ openFile given around = .ok file := by
  have hfails {e : ImageError} (h : Fails segments given around e) :
      ∃ e, draw segments given around = .error e ∧ Fails segments given around e :=
    ⟨e, h.draw_eq, h⟩
  cases hfit : (lay segments around.paintsAtOnce).1.isOk with
  | false => exact Or.inl (hfails (.unfit hfit))
  | true =>
    cases hformat : isKnownFormat (ending given) with
    | false => exact Or.inl (hfails (.format hfit hformat))
    | true =>
      cases hopen : openFile given around with
      | error e =>
        by_cases hcut : isStreamed (ending given) = true ∨
            (paint segments around.paintsAtOnce).1.isOk = true
        · exact Or.inl (hfails (.closed e hfit hformat hcut hopen))
        · simp only [not_or, Bool.not_eq_true] at hcut
          exact Or.inl (hfails (.uncut hfit hformat hcut.1 hcut.2))
      | ok file =>
        rcases hpaint : paint segments around.paintsAtOnce with ⟨e | ⟨⟩, surface⟩
        · have hcut : (paint segments around.paintsAtOnce).1.isOk = false := by
            rw [hpaint]
            rfl
          cases hstreamed : isStreamed (ending given) with
          | true => exact Or.inl (hfails (.unpainted file hfit hformat hstreamed hopen hcut))
          | false => exact Or.inl (hfails (.uncut hfit hformat hstreamed hcut))
        · exact Or.inr ⟨file, surface, draw_ok hpaint hformat hopen, rfl, rfl, rfl⟩

end Image

/-! ### One outcome -/

namespace Options

section Delivers

variable (o : Options) (c : Config) (segments : List Segment) (stats : Stats)
  (around : Surroundings) (events : Schedule WindowEvent)

/-- What may become of a drawing. A table goes before an image, and an image before a window. -/
inductive Delivers : Outcome → Prop where
  /-- The drawing is skipped. -/
  | skips (hgiven : o.isVoid .maxSegments = false) (hlimit : 0 ≤ o.maxSegments)
      (hmany : o.maxSegments < segments.length) :
      Delivers ⟨.exit 0, [], some stats, [o.skipLine], .nothing⟩
  | table (hadmits : o.Admits segments.length) (htable : o.textOnly = true) :
      Delivers ⟨.exit 0, [], some stats, [wroteLine tableName], .table segments⟩
  | image (name : List Char) (file : Option (List Char)) (surface : Surface)
      (hadmits : o.Admits segments.length) (htable : o.textOnly = false)
      (hgiven : o.isVoid .image = false) (himage : o.image = some name)
      (hpaint : Image.paint segments around.paintsAtOnce = (.ok (), surface))
      (hformat : Image.isKnownFormat (Image.ending name) = true) (hpath : isPath name = true)
      (htarget : around.target (Image.path name) = .ok file) :
      Delivers ⟨.exit 0, [], some stats, [wroteLine name], .image file surface⟩
  | window (session : Session) (ending : Ending) (hadmits : o.Admits segments.length)
      (htable : o.textOnly = false) (hgiven : o.isVoid .image = false) (himage : o.image = none)
      (hsession : session =
        .shown c o.modeValue (.whole o.batch) (.real o.delaySeconds) o.limit events)
      (hending : session.failure = none ∧ ending = .exit 0 ∨
        ∃ e, session.failure = some e ∧ ending = .broken (.session e)) :
      Delivers ⟨ending, [], some stats, session.printed.toList, .window session⟩
  /-- The picture cannot be shown, the format is unknown, or the path leads nowhere. Nothing is left
  but the file of an image that is not painted, if it was opened. -/
  | noImage (name : List Char) (e : ImageError) (hadmits : o.Admits segments.length)
      (htable : o.textOnly = false) (hgiven : o.isVoid .image = false)
      (himage : o.image = some name) (hfails : Image.Fails segments name around e) :
      Delivers ⟨.broken (.image e), [], some stats, [], e.product⟩
  | voidLimit (hvoid : o.isVoid .maxSegments = true) :
      Delivers (.brokenAfter stats (.noValue .maxSegments))
  | voidImage (hadmits : o.Admits segments.length) (htable : o.textOnly = false)
      (hvoid : o.isVoid .image = true) :
      Delivers (.brokenAfter stats
        (if (Image.paint segments around.paintsAtOnce).1.isOk then .noValue .image
          else .image .notFinite))

end Delivers

variable {o : Options} {c : Config} {segments : List Segment} {stats : Stats}
  {around : Surroundings} {events : Schedule WindowEvent}

/-- Something becomes of every drawing. -/
theorem delivers_deliver (o : Options) (c : Config) (segments : List Segment) (stats : Stats)
    (around : Surroundings) (events : Schedule WindowEvent) :
    o.Delivers c segments stats around events (o.deliver c segments stats around events) := by
  by_cases hvoid : o.isVoid .maxSegments = true
  · rw [deliver_of_void hvoid]
    exact .voidLimit hvoid
  · rw [Bool.not_eq_true] at hvoid
    by_cases hmany : 0 ≤ o.maxSegments ∧ o.maxSegments < segments.length
    · rw [deliver_of_many hvoid hmany]
      exact .skips hvoid hmany.1 hmany.2
    · have hadmits : o.Admits segments.length := ⟨hvoid, hmany⟩
      cases htable : o.textOnly with
      | true =>
        rw [deliver_table hadmits htable]
        exact .table hadmits htable
      | false =>
        cases hgiven : o.isVoid .image with
        | true =>
          rw [deliver_voidImage hadmits htable hgiven]
          exact .voidImage hadmits htable hgiven
        | false =>
          cases himage : o.image with
          | none =>
            rw [deliver_window hadmits htable hgiven himage]
            refine .window _ _ hadmits htable hgiven himage rfl ?_
            split
            · next e hfailure => exact Or.inr ⟨e, hfailure, rfl⟩
            · next hfailure => exact Or.inl ⟨hfailure, rfl⟩
          | some name =>
            rw [deliver_image hadmits htable hgiven himage, imageOutcome]
            obtain ⟨e, hdraw, hfails⟩ | ⟨file, surface, hdraw, hpaint, hformat, hopen⟩ :=
              Image.draw_cases segments name around
            · rw [hdraw]
              exact .noImage name e hadmits htable hgiven himage hfails
            · obtain ⟨hpath, htarget⟩ := Image.openFile_ok_iff.1 hopen
              rw [hdraw]
              exact .image name file surface hadmits htable hgiven himage hpaint hformat hpath
                htarget

end Options

namespace Options

variable {o : Options} {c : Config} {segments : List Segment} {stats : Stats}
  {around : Surroundings} {events : Schedule WindowEvent} {outcome : Outcome}

theorem Delivers.stats_eq (h : o.Delivers c segments stats around events outcome) :
    outcome.stats = some stats := by
  cases h <;> rfl

end Options

/-- The counts of a drawing, once evaluated, show that there is one. -/
theorem Options.exists_draw_of_counts {o : Options} {around : Surroundings} {count : Nat}
    {stats : Stats} (h : ((o.config around).toOption.map fun c =>
      (c.draw o.limit).toOption.map fun d => (d.1.length, d.2)) = some (some (count, stats))) :
    ∃ c segments, o.config around = .ok c ∧ c.draw o.limit = .ok (segments, stats) ∧
      segments.length = count := by
  cases hconfig : o.config around with
  | error e =>
    rw [hconfig] at h
    cases h
  | ok c =>
    rw [hconfig] at h
    have hdrawn : ((c.draw o.limit).toOption.map fun d => (d.1.length, d.2)) =
        some (count, stats) := Option.some.inj h
    cases hdraw : c.draw o.limit with
    | error e =>
      rw [hdraw] at hdrawn
      cases hdrawn
    | ok d =>
      obtain ⟨segments, drawn⟩ := d
      rw [hdraw] at hdrawn
      obtain ⟨hlength, rfl⟩ := Prod.mk.inj (Option.some.inj hdrawn)
      exact ⟨c, segments, rfl, hdraw, hlength⟩

namespace Program

/-- The first generation of the default system, with just as many segments as are allowed. -/
def fullOptions : Options :=
  { Options.default with iterations := 1, maxSegments := 5, textOnly := true }

theorem exists_full_draw : ∃ c segments, fullOptions.config (Folder.surroundings ⟨[]⟩) = .ok c ∧
    c.draw fullOptions.limit = .ok (segments, ⟨11, 5⟩) ∧ segments.length = 5 :=
  Options.exists_draw_of_counts (by decide +kernel)

end Program

end Lindenmayer
