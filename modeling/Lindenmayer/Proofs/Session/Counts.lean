import Lindenmayer.Proofs.Session.Keys

/-!
# Counts of iterations

A configuration that was made is made again of what it holds. In a session every configuration was
made, be it by a command that brings settings of its own or by a change of the number of iterations;
the latter leaves everything else as it is, however often it comes. The number itself is taken as it
is asked for exactly if a double can hold it, and otherwise rounded.
-/
namespace Lindenmayer

open Number

/-- The command brings settings of its own. -/
def SessionCommand.reconfigures : SessionCommand → Bool
  | .configure _ => true
  | _ => false

namespace Session

open SessionCommand

variable {s t : Session}

/-! ### What leaves the configuration alone -/

theorem config_setStatus (s : Session) (text : List Char) (isError : Bool) :
    (s.setStatus text isError).config = s.config := by
  rw [setStatus_eq]

theorem config_enqueue (s : Session) (mode : Mode) : (s.enqueue mode).config = s.config := by
  rw [enqueue]
  split
  · rfl
  · rfl

theorem config_request (s : Session) (mode : Value) : (s.request mode).config = s.config := by
  rw [request]
  split
  · rfl
  · exact config_enqueue s _

theorem config_stop (s : Session) : s.stop.config = s.config := config_setStatus _ _ _

theorem config_applyCanvas (s : Session) : s.applyCanvas.2.config = s.config := by
  obtain ⟨view, viewport, printed, hcanvas⟩ := exists_applyCanvas s
  rw [hcanvas]

theorem config_resize (s : Session) : s.resize.config = s.config := by
  have hcanvas := config_applyCanvas s
  rw [resize]
  split
  · next e t ht =>
    rw [ht] at hcanvas
    exact hcanvas
  · next t ht =>
    rw [ht] at hcanvas
    exact hcanvas
  · next t ht =>
    rw [ht] at hcanvas
    split
    · exact hcanvas
    · exact (config_setStatus _ _ _).trans hcanvas

theorem config_beginGrowth (s : Session) (segments : Array Segment) :
    (s.beginGrowth segments).config = s.config := by
  rw [beginGrowth]
  split
  · rfl
  · exact config_setStatus _ _ _

theorem config_drawRun (s : Session) (mode : Mode) : (s.drawRun mode).config = s.config := by
  rw [drawRun]
  split
  · split
    · exact config_setStatus _ _ _
    · rfl
  · cases mode with
    | render => exact config_setStatus _ _ _
    | grow => exact config_beginGrowth _ _

theorem config_beginRun (s : Session) (mode : Mode) : (s.beginRun mode).config = s.config := by
  have hcanvas := config_applyCanvas s.stopStage
  rw [beginRun]
  split
  · next e t ht =>
    rw [ht] at hcanvas
    exact hcanvas
  · next t ht =>
    rw [ht] at hcanvas
    exact ((config_drawRun _ mode).trans (config_setStatus t [] false)).trans hcanvas

theorem config_endGrowth (s : Session) (id : Nat) : (s.endGrowth id).config = s.config := by
  rw [endGrowth]
  split
  · exact config_setStatus _ _ _
  · rfl

theorem config_beginWait (s : Session) (id : Nat) : (s.beginWait id).config = s.config := by
  rw [beginWait]
  split
  · rfl
  · rfl

theorem config_tick (s : Session) (id : Nat) : (s.tick id).config = s.config := by
  rcases tick_cases s id with ⟨stage, htick⟩ | ⟨stage, htick⟩
  · rw [htick]
    exact config_endGrowth _ id
  · rw [htick]
    exact config_beginWait _ id

/-- Only the command that a wait performs can change the configuration. -/
theorem config_step_cases (s : Session) :
    (s.imminent = [] ∧ s.step.config = s.config) ∨
      ∃ (t : Session) (c : SessionCommand),
        s.imminent = [c] ∧ t.config = s.config ∧ s.step = t.perform c := by
  cases hphase : s.phase with
  | idle =>
    rw [step_of_idle hphase, imminent_of_phase hphase]
    exact Or.inl ⟨rfl, rfl⟩
  | choosing last =>
    rw [imminent_of_phase hphase]
    refine Or.inl ⟨rfl, ?_⟩
    cases hpending : s.pending with
    | none => rw [step_of_not_pending hphase hpending]
    | some mode =>
      rw [step_of_pending hphase hpending]
      exact config_beginRun _ mode
  | growing id =>
    rw [step_of_growing hphase, imminent_of_phase hphase]
    exact Or.inl ⟨rfl, config_tick s id⟩
  | waiting id rest =>
    rw [imminent_of_phase hphase]
    cases rest with
    | nil =>
      rw [step_of_waited hphase]
      exact Or.inl ⟨rfl, rfl⟩
    | cons c rest =>
      rw [step_of_waiting hphase]
      exact Or.inr ⟨{ s with phase := .waiting id rest }, c, rfl, rfl, rfl⟩

/-! ### What changes it -/

/-- The configuration is kept, or the same settings are taken with another number of iterations. -/
theorem config_changeIterations_cases (s : Session) (delta : Numeric) :
    (s.changeIterations delta).config = s.config ∨
      ∃ i, Config.make (s.config.settings i) = .ok (s.changeIterations delta).config := by
  rw [changeIterations]
  split
  · exact Or.inl rfl
  · next i _ =>
    split
    · split
      · exact Or.inl (config_setStatus _ _ _)
      · exact Or.inl rfl
    · next config hmake =>
      rw [config_enqueue]
      exact Or.inr ⟨i, hmake⟩

theorem config_pressKey_cases (s : Session) (key : List Char) :
    (s.pressKey key).config = s.config ∨
      ∃ i, Config.make (s.config.settings i) = .ok (s.pressKey key).config := by
  rw [pressKey]
  split
  · exact Or.inl (config_enqueue s _)
  · split
    · exact Or.inl (config_enqueue s _)
    · split
      · exact Or.inl (config_stop s)
      · split
        · exact config_changeIterations_cases s _
        · split
          · exact config_changeIterations_cases s _
          · exact Or.inl rfl

/-- A command keeps the configuration, counts iterations again or brings settings of its own. -/
theorem config_perform_cases (s : Session) (c : SessionCommand) :
    (s.perform c).config = s.config ∨
      (∃ i, Config.make (s.config.settings i) = .ok (s.perform c).config) ∨
        c.reconfigures = true ∧ ∃ settings, Config.make settings = .ok (s.perform c).config := by
  cases c with
  | run mode =>
    cases mode with
    | none => exact Or.inl (config_enqueue s _)
    | some mode => exact Or.inl (config_request s mode)
  | request mode => exact Or.inl (config_request s mode)
  | key name =>
    cases name with
    | none => exact Or.inl rfl
    | some key => exact (config_pressKey_cases s key).imp_right Or.inl
  | stop => exact Or.inl (config_stop s)
  | close => exact Or.inl rfl
  | resize size =>
    cases size with
    | none => exact Or.inl (config_resize s)
    | some size => exact Or.inl (config_resize { s with canvas := size })
  | changeIterations delta => exact (config_changeIterations_cases s delta).imp_right Or.inl
  | configure settings =>
    rw [perform]
    cases hmake : Config.make settings with
    | error e => exact Or.inl rfl
    | ok config => exact Or.inr (Or.inr ⟨rfl, settings, hmake⟩)
  | setStatus text isError => exact Or.inl (config_setStatus s text isError)
  | setBatch batch => exact Or.inl rfl
  | setLimit limit => exact Or.inl rfl

/-! ### Configurations of a session -/

theorem made_perform (h : s.config.Made) (c : SessionCommand) : (s.perform c).config.Made := by
  rcases config_perform_cases s c with hsame | ⟨i, hmake⟩ | ⟨-, settings, hmake⟩
  · rwa [hsame]
  · exact Config.made_of_make hmake
  · exact Config.made_of_make hmake

theorem made_step (h : s.config.Made) : s.step.config.Made := by
  rcases config_step_cases s with ⟨-, hsame⟩ | ⟨t, c, -, hsame, hstep⟩
  · rwa [hsame]
  · rw [hstep]
    exact made_perform (hsame ▸ h) c

theorem made_of_turn {p : SessionCommand → Prop} (h : s.config.Made) (hturn : Turn p s t) :
    t.config.Made := by
  cases hturn with
  | step => exact made_step h
  | begin c _ _ => exact made_perform (s := { s with reply := none, failure := none }) h c
  | forget => exact h

/-- Whatever a session is told, its configuration was made. -/
theorem made_of_turns {p : SessionCommand → Prop} (h : s.config.Made) (hturns : Turns p s t) :
    t.config.Made := by
  induction hturns with
  | refl => exact h
  | tail _ hturn ih => exact made_of_turn ih hturn

/-- The sessions have configurations that differ in the number of iterations at most. -/
def Recounted (s t : Session) : Prop := ∃ n, t.config = { s.config with iterations := n }

theorem Recounted.of_eq (h : t.config = s.config) : Recounted s t := ⟨s.config.iterations, h⟩

theorem Recounted.made (h : Recounted s t) (hmade : s.config.Made) : t.config.Made := by
  obtain ⟨n, hn⟩ := h
  rw [hn]
  exact hmade.recount n

theorem Recounted.trans {u : Session} (h : Recounted s t) (h' : Recounted t u) :
    Recounted s u := by
  obtain ⟨n, hn⟩ := h
  obtain ⟨m, hm⟩ := h'
  rw [hn] at hm
  exact ⟨m, hm⟩

theorem recounted_of_make (hmade : s.config.Made) {i : Numeric}
    (h : Config.make (s.config.settings i) = .ok t.config) : Recounted s t := by
  obtain ⟨n, -, hn⟩ := (hmade.make_recount i (.number i) t.config).1 h
  exact ⟨n, hn⟩

theorem recounted_changeIterations (hmade : s.config.Made) (delta : Numeric) :
    Recounted s (s.changeIterations delta) := by
  rcases config_changeIterations_cases s delta with hsame | ⟨i, hmake⟩
  · exact .of_eq hsame
  · exact recounted_of_make hmade hmake

theorem recounted_perform (hmade : s.config.Made) {c : SessionCommand}
    (hc : c.reconfigures = false) : Recounted s (s.perform c) := by
  rcases config_perform_cases s c with hsame | ⟨i, hmake⟩ | ⟨hnew, -⟩
  · exact .of_eq hsame
  · exact recounted_of_make hmade hmake
  · exact Bool.noConfusion (hnew.symm.trans hc)

theorem recounted_step (hmade : s.config.Made) (h : ∀ c ∈ s.imminent, c.reconfigures = false) :
    Recounted s s.step := by
  rcases config_step_cases s with ⟨-, hsame⟩ | ⟨t, c, himminent, hsame, hstep⟩
  · exact .of_eq hsame
  · have hc : c.reconfigures = false := h c (by simp [himminent])
    have hperform : Recounted t (t.perform c) := recounted_perform (hsame ▸ hmade) hc
    rw [hstep]
    exact Recounted.trans (.of_eq hsame) hperform

theorem recounted_settle (s : Session) (hmade : s.config.Made)
    (h : ∀ c ∈ s.heard, c.reconfigures = false) : Recounted s s.settle := by
  induction s using settle.induct with
  | case1 s hrun ih =>
    rw [heard_of_running hrun] at h
    rw [settle_of_running hrun]
    obtain ⟨himminent, hlater⟩ := List.forall_mem_append.1 h
    have hstep := recounted_step hmade himminent
    exact hstep.trans (ih (hstep.made hmade) hlater)
  | case2 s hrest =>
    rw [settle_of_idle (idle_of_not_running hrest)]
    exact .of_eq rfl

theorem config_command (s : Session) (c : SessionCommand) :
    (s.command c).config = (s.told c).settle.config := by
  rw [command]
  split
  · rfl
  · rfl

theorem recounted_command (hmade : s.config.Made) {c : SessionCommand}
    (h : ∀ d ∈ c :: (s.told c).heard, d.reconfigures = false) : Recounted s (s.command c) := by
  obtain ⟨hc, hlater⟩ := List.forall_mem_cons.1 h
  have htold : Recounted s (s.told c) :=
    recounted_perform (s := { s with reply := none, failure := none }) hmade hc
  have hend : Recounted s (s.told c).settle :=
    htold.trans (recounted_settle _ (htold.made hmade) hlater)
  obtain ⟨n, hn⟩ := hend
  exact ⟨n, (config_command s c).trans hn⟩

/-- Commands that bring no settings of their own change the number of iterations at most, whatever
is done in the waits as long as it brings none either. -/
theorem recounted_commands (hmade : s.config.Made) {commands : List SessionCommand}
    (h : ∀ c ∈ s.performed commands, c.reconfigures = false) :
    Recounted s (commands.foldl command s) := by
  induction commands generalizing s with
  | nil => exact .of_eq rfl
  | cons c rest ih =>
    have hsplit : s.performed (c :: rest) =
        (c :: (s.told c).heard) ++ (s.command c).performed rest := rfl
    rw [hsplit, List.forall_mem_append] at h
    have hfirst := recounted_command hmade h.1
    exact hfirst.trans (ih (hfirst.made hmade) h.2)

theorem recounted_changes (hmade : s.config.Made) (deltas : List Numeric) :
    Recounted s (deltas.foldl changeIterations s) := by
  induction deltas generalizing s with
  | nil => exact .of_eq rfl
  | cons delta rest ih =>
    have hfirst := recounted_changeIterations hmade delta
    exact hfirst.trans (ih (hfirst.made hmade))

/-- A change of the number is accepted if the settings with that number are. -/
theorem config_changeIterations_of_make {delta : Int} {config : Config}
    (h : Config.make (s.config.settings (.whole (s.config.iterations + delta))) = .ok config) :
    (s.changeIterations (.whole delta)).config = config := by
  rw [changeIterations, Numeric.addInt?]
  dsimp only
  rw [h]
  exact config_enqueue _ _

/-- The configuration is kept if nothing is done in the waits. -/
theorem config_settle_of_unheard (s : Session) (h : s.heard = []) :
    s.settle.config = s.config := by
  induction s using settle.induct with
  | case1 s hrun ih =>
    rw [heard_of_running hrun, List.append_eq_nil_iff] at h
    rw [settle_of_running hrun, ih h.2]
    rcases config_step_cases s with ⟨-, hsame⟩ | ⟨t, c, himminent, -⟩
    · exact hsame
    · rw [himminent] at h
      cases h.1
  | case2 s hrest => rw [settle_of_idle (idle_of_not_running hrest)]

end Session

/-! ### Made again -/

/-- A configuration that was made is made again of what it holds. With any other value for the
number of iterations it is made if that value is accepted as one, and nothing else changes. However
a session that begins with it has come to where it is, counting iterations again changes nothing
else either, however often it is done; nor does anything that is performed from there, in the waits
or between them, unless it brings settings of its own. -/
theorem configuration_made_again {settings : Settings} {c : Config}
    (hmake : Config.make settings = .ok c) :
    Config.make (c.settings (.whole c.iterations)) = .ok c ∧
      (∀ (v : Value) (c' : Config),
        Config.make { c.settings (.whole c.iterations) with iterations := v } = .ok c' ↔
          ∃ (x : Float) (n : Nat), v.IsNumber x n ∧ c' = { c with iterations := n }) ∧
      (∀ (other : Settings) (made : Config), Config.make other = .ok made →
        Config.make { c.settings (.whole c.iterations) with iterations := other.iterations } =
          .ok { c with iterations := made.iterations }) ∧
      ∀ (batch delay : Numeric) (limit : Limit) (canvas : Canvas)
        (onWait : Schedule SessionCommand) (t : Session),
        Session.Turns (fun _ => True) (Session.new c batch delay limit canvas onWait) t →
          (∀ deltas : List Numeric, ∃ n,
            (deltas.foldl Session.changeIterations t).config =
              { t.config with iterations := n }) ∧
          ∀ commands : List SessionCommand, (∀ d ∈ t.performed commands, d.reconfigures = false) →
            ∃ n, (commands.foldl Session.command t).config =
              { t.config with iterations := n } := by
  have hmade := Config.made_of_make hmake
  obtain ⟨hfits, hlog⟩ := Config.iterations_of_make hmake
  have hrecount := hmade.make_recount (.whole c.iterations)
  refine ⟨?_, fun v c' => ?_, fun other made hother => ?_, ?_⟩
  · have hcount := Value.toCount_whole_of_fitsDouble hfits hlog
    exact (hrecount (.number (.whole c.iterations)) c).2 ⟨c.iterations, hcount, rfl⟩
  · rw [hrecount]
    simp only [Value.toCount_ok_iff]
    constructor
    · rintro ⟨n, ⟨x, hx⟩, rfl⟩
      exact ⟨x, n, hx, rfl⟩
    · rintro ⟨x, n, hx, rfl⟩
      exact ⟨n, ⟨x, hx⟩, rfl⟩
  · obtain ⟨n, x, y, hcount, -, -, rfl⟩ := Config.make_ok_iff.1 hother
    exact (hrecount other.iterations _).2 ⟨n, hcount, rfl⟩
  · intro batch delay limit canvas onWait t hturns
    have ht : t.config.Made := Session.made_of_turns hmade hturns
    exact ⟨Session.recounted_changes ht, fun commands => Session.recounted_commands ht⟩

/-- Settings with white space to lose, a number of iterations far beyond what can be counted and a
turn of minus zero. -/
def unkempt : Settings where
  start := some " FF\t".toList
  rulesText := none
  iterations := .text "1_152_921_504_606_846_976".toList
  angle := .text " -0".toList
  step := .number (.whole 3)
  pen := Config.defaultPen

/-- The configuration that these settings ask for. -/
def kempt : Config := ⟨"FF".toList, [], 2 ^ 60, -0.0, 3, Config.defaultPen⟩

/-- A session that is told to count again in its first wait. -/
def recounting : Session :=
  Session.new kempt (.whole 1) (.whole 0) Config.defaultLimit .empty
    (.ofNumbered [(1, [.changeIterations (.whole 256), .changeIterations (.real 1024)])])

theorem kempt_made_again : Config.make unkempt = .ok kempt ∧
    Config.make (kempt.settings (.whole (2 ^ 60))) = .ok kempt ∧
    Config.make { kempt.settings (.whole (2 ^ 60)) with iterations := .text "7.0".toList } =
      .ok { kempt with iterations := 7 } ∧
    ∃ n, (recounting.command (.key (some ['g']))).config = { kempt with iterations := n } := by
  have hmake : Config.make unkempt = .ok kempt := rfl
  obtain ⟨hagain, -, hother, hsession⟩ := configuration_made_again hmake
  have hseven : Config.make { unkempt with iterations := .text "7.0".toList } =
      .ok { kempt with iterations := 7 } := rfl
  obtain ⟨-, hcommands⟩ := hsession _ _ _ _ _ recounting .refl
  have hidle : (Session.step^[20] (recounting.told (.key (some ['g'])))).phase = .idle :=
    Session.idle_of_not_running (by decide +kernel)
  have hheard : ∀ d ∈ recounting.performed [.key (some ['g'])], d.reconfigures = false := by
    rw [Session.performed, Session.performed, Session.heard_eq_heardWithin hidle]
    decide +kernel
  exact ⟨hmake, hagain, hother _ _ hseven, hcommands _ hheard⟩

/-! ### Taken as asked for -/

/-- An integer that is accepted as the number of iterations is not below zero, it is rounded to the
nearest number of 53 significant bits, and it is taken as it is exactly if it has no more. So it is
where a session asks for it by a change of its own number: the change is by as much as was asked for
exactly if the sum has no more significant bits, and that is what the command comes to if no other
is heard in the waits. -/
theorem iterations_taken_exactly_iff {settings : Settings} {c : Config} {i : Int}
    (hgiven : settings.iterations = .number (.whole i)) (hmake : Config.make settings = .ok c) :
    0 ≤ i ∧ FitsDouble c.iterations ∧
      (∀ m, FitsDouble m → ((c.iterations : Int) - i).natAbs ≤ ((m : Int) - i).natAbs) ∧
      ((c.iterations : Int) = i ↔ FitsDouble i.toNat) ∧
      ∀ (s : Session) (delta : Int), s.config.iterations + delta = i →
        settings = s.config.settings (.whole i) →
          (s.changeIterations (.whole delta)).config = c ∧
          ((c.iterations : Int) - s.config.iterations = delta ↔ FitsDouble i.toNat) ∧
          ((s.told (.changeIterations (.whole delta))).heard = [] →
            (s.command (.changeIterations (.whole delta))).config = c) := by
  obtain ⟨n, x, y, hcount, -, -, hc⟩ := Config.make_ok_iff.1 hmake
  rw [hgiven] at hcount
  obtain ⟨hnonneg, hn⟩ := Value.toCount_whole_ok hcount
  have hrounded : c.iterations = nearestFit i.toNat := by rw [hc, hn]
  have hi : (i.toNat : Int) = i := Int.toNat_of_nonneg hnonneg
  have hexact : (c.iterations : Int) = i ↔ FitsDouble i.toNat := by
    rw [← nearestFit_eq_self_iff, hrounded]
    omega
  refine ⟨hnonneg, ?_, fun m hm => ?_, hexact, ?_⟩
  · rw [hrounded]
    exact fitsDouble_nearestFit _
  · have hnear := nearestFit_near i.toNat hm
    rw [hrounded]
    rwa [hi] at hnear
  · rintro s delta rfl rfl
    refine ⟨Session.config_changeIterations_of_make hmake, ?_, fun hunheard => ?_⟩
    · rw [← hexact]
      omega
    · rw [Session.config_command, Session.config_settle_of_unheard _ hunheard]
      exact Session.config_changeIterations_of_make
        (s := { s with reply := none, failure := none }) hmake

/-- The least number of iterations that cannot be counted up by one. -/
def summit : Config := ⟨"F".toList, [], 2 ^ 53, 90, 1, Config.defaultPen⟩

def atSummit : Session :=
  Session.new summit (.whole 1) (.whole 0) Config.defaultLimit .empty .quiet

/-- Two iterations more are another double, and none is nearer to it. -/
theorem two_more_at_summit :
    Config.make (summit.settings (.whole (2 ^ 53 + 2))) =
      .ok { summit with iterations := 2 ^ 53 + 2 } ∧
    FitsDouble (2 ^ 53 + 2) ∧
    (((2 ^ 53 + 2 : Nat) : Int) - (2 ^ 53 + 2)).natAbs ≤
      (((2 ^ 53 : Nat) : Int) - (2 ^ 53 + 2)).natAbs ∧
    (atSummit.command (.changeIterations (.whole 2))).config =
      { summit with iterations := 2 ^ 53 + 2 } := by
  have hmake : Config.make (summit.settings (.whole (2 ^ 53 + 2))) =
      .ok { summit with iterations := 2 ^ 53 + 2 } := rfl
  have hidle : (Session.step^[20] (atSummit.told (.changeIterations (.whole 2)))).phase = .idle :=
    Session.idle_of_not_running (by decide +kernel)
  have hunheard : (atSummit.told (.changeIterations (.whole 2))).heard = [] := by
    rw [Session.heard_eq_heardWithin hidle]
    rfl
  obtain ⟨-, hfits, hnear, -, hsession⟩ := iterations_taken_exactly_iff rfl hmake
  obtain ⟨-, -, hcommand⟩ := hsession atSummit 2 rfl rfl
  exact ⟨hmake, hfits, hnear _ ⟨1, 53, by decide, rfl⟩, hcommand hunheard⟩

/-- One iteration more is asked for, is accepted and does not come. -/
theorem one_more_at_summit :
    Config.make (summit.settings (.whole (2 ^ 53 + 1))) = .ok summit ∧
    summit.iterations ≠ 2 ^ 53 + 1 ∧
    (atSummit.perform (.key (some "up".toList))).config.iterations = atSummit.config.iterations ∧
    (atSummit.perform (.key (some "up".toList))).pending = some .grow := by
  refine ⟨rfl, by decide, rfl, rfl⟩

end Lindenmayer
