import Lindenmayer.Proofs.Session.Course

/-!
# Coming to rest

A session at rest has nothing in progress, nothing asked for and nothing growing. A command that does
not fail brings it back to rest, whatever happens in the waits, and then each of its growths has come
to one of two ends: it has drawn everything, or it was cancelled before it had. What carries this
through a run is that a growth waits only while something is left to draw, so that whatever cancels
it in a wait finds it unfinished.
-/
namespace Lindenmayer

/-- The growth has drawn everything and was not cancelled, or it was cancelled before it had. -/
def Growth.Settled {σ : Type} (g : Growth σ) : Prop :=
  (g.done = true ∧ g.cancelled = false) ∨ (g.cancelled = true ∧ g.cursor < g.total)

namespace Stage

variable {σ : Type}

/-- Every growth that was ever made has come to its end. -/
def Settled (s : Stage σ) : Prop :=
  ∀ (id : Nat) (g : Growth σ), s.growths[id]? = some g → g.Settled

/-- A growth that is cancelled while something is left to draw has come to its end. -/
theorem settled_stop {s : Stage σ}
    (hrest : ∀ (id : Nat) (g : Growth σ), s.growths[id]? = some g → s.live ≠ some id → g.Settled)
    (hlive : ∀ (id : Nat) (g : Growth σ), s.live = some id → s.growths[id]? = some g →
      g.cursor < g.total) : s.stop.Settled := by
  intro id g hg
  rw [growth_stop] at hg
  obtain ⟨g', hg', rfl⟩ := Option.map_eq_some_iff.1 hg
  by_cases hl : s.live = some id
  · rw [if_pos hl]
    exact Or.inr ⟨rfl, hlive id g' hl hg'⟩
  · rw [if_neg hl]
    exact hrest id g' hg' hl

end Stage

namespace Session

/-- Nothing is in progress, nothing is asked for and nothing is growing. -/
structure Idle (s : Session) : Prop where
  phase : s.phase = .idle
  pending : s.pending = none
  live : s.stage.live = none

/-- What is live is in progress and has something left to draw, unless it is about to draw; all else
has come to its end. -/
structure Orderly (s : Session) : Prop where
  sound : s.Sound
  settled : ∀ (id : Nat) (g : Growth Segment), s.stage.growths[id]? = some g →
    s.stage.live ≠ some id → g.Settled
  live : ∀ (id : Nat) (g : Growth Segment), s.stage.live = some id →
    s.stage.growths[id]? = some g →
      s.phase.growth? = some id ∧ g.cancelled = false ∧
        (g.cursor < g.total ∨ s.phase = .growing id)
  pending : s.phase = .idle → s.pending = none

/-- An error has ended what was in progress. -/
def Failed (s : Session) : Prop := s.phase = .idle ∧ s.failure ≠ none

theorem failed_fail (s : Session) (e : SessionError) : (s.fail e).Failed :=
  ⟨rfl, by simp [fail]⟩

theorem Orderly.live_eq_none {s : Session} (h : s.Orderly) (hphase : s.phase.growth? = none) :
    s.stage.live = none := by
  cases hl : s.stage.live with
  | none => rfl
  | some id =>
    have hg := Array.getElem?_eq_getElem (h.sound.stage.live_lt id hl)
    obtain ⟨hgrowth, _⟩ := h.live id _ hl hg
    rw [hphase] at hgrowth
    cases hgrowth

/-- A change that leaves the growths alone and nothing in progress but what was. -/
theorem Orderly.kept {s t : Session} (h : s.Orderly) (ht : t.Sound) (hstage : t.stage = s.stage)
    (hphase : t.phase.growth? = s.phase.growth?)
    (hgrowing : ∀ id, s.phase = .growing id → t.phase = .growing id)
    (hpending : t.phase = .idle → t.pending = none) : t.Orderly := by
  refine ⟨ht, ?_, ?_, hpending⟩
  · rw [hstage]
    exact h.settled
  · intro id g hl hg
    rw [hstage] at hl hg
    obtain ⟨hgrowth, hcancelled, hcursor⟩ := h.live id g hl hg
    exact ⟨hphase.trans hgrowth, hcancelled, hcursor.imp_right (hgrowing id)⟩

/-- When nothing is live, every growth has come to its end. -/
theorem orderly_of_settled {t : Session} (ht : t.Sound) (hlive : t.stage.live = none)
    (hsettled : t.stage.Settled) (hpending : t.phase = .idle → t.pending = none) : t.Orderly := by
  refine ⟨ht, fun id g hg _ => hsettled id g hg, ?_, hpending⟩
  intro id g hl
  rw [hlive] at hl
  cases hl

/-- What stops a growth that waits, and any session that rests. -/
theorem Orderly.settled_stop {s : Session} (h : s.Orderly)
    (hphase : ∀ id, s.phase ≠ .growing id) : s.stage.stop.Settled := by
  refine Stage.settled_stop h.settled ?_
  intro id g hl hg
  obtain ⟨_, _, hcursor⟩ := h.live id g hl hg
  exact hcursor.resolve_right (hphase id)

/-- A command finds no growth that is about to draw, so what it cancels is unfinished. -/
theorem Effect.orderly {s t : Session} {c : SessionCommand} (h : Effect s c t) (hs : s.Orderly)
    (hphase : ∀ id, s.phase ≠ .growing id) : t.Failed ∨ t.Orderly := by
  have ht := h.sound hs.sound
  have hstopped := hs.settled_stop hphase
  cases h with
  | @asks u mode _ hu =>
    obtain ⟨_, _, _, _, _, _, rfl⟩ := hu
    right
    rw [enqueue] at ht ⊢
    split at ht
    · next hrun =>
      rw [if_pos hrun]
      refine orderly_of_settled ht (Stage.live_stop _) hstopped ?_
      intro hidle
      have hrest : s.isRunning = false := isRunning_of_idle hidle
      cases hrun.symm.trans hrest
    · next hrest =>
      have hidle : s.phase = .idle := idle_of_not_running hrest
      rw [if_neg hrest]
      refine hs.kept ht rfl ?_ ?_ ?_
      · rw [hidle]
        rfl
      · intro id hgrowing
        exact absurd hgrowing (hphase id)
      · intro hchoosing
        cases hchoosing
  | stops _ =>
    right
    rw [stop, setStatus_eq] at ht ⊢
    exact orderly_of_settled ht (Stage.live_stop _) hstopped fun _ => rfl
  | fails e _ _ => exact Or.inl (failed_fail _ e)
  | reports _ _ =>
    right
    rw [setStatus_eq] at ht ⊢
    exact hs.kept ht rfl rfl (fun _ hgrowing => hgrowing) hs.pending
  | tells _ _ =>
    right
    rw [setStatus_eq] at ht ⊢
    exact hs.kept ht rfl rfl (fun _ hgrowing => hgrowing) hs.pending
  | closes _ => exact Or.inr (orderly_of_settled ht (Stage.live_stop _) hstopped hs.pending)
  | shows _ hu _ =>
    obtain ⟨_, _, _, _, _, _, rfl⟩ := hu
    right
    rw [renderAll, setStatus_eq] at ht ⊢
    exact orderly_of_settled ht (Stage.live_stop s.stage) hstopped hs.pending
  | batches _ _ => exact Or.inr (hs.kept ht rfl rfl (fun _ hgrowing => hgrowing) hs.pending)
  | aside _ hu =>
    obtain ⟨_, _, _, _, _, _, rfl⟩ := hu
    exact Or.inr (hs.kept ht rfl rfl (fun _ hgrowing => hgrowing) hs.pending)

/-- A run begins when all growths have come to their end; the one it may make is about to draw. -/
theorem Beginning.orderly {s t : Session} {mode : Mode} (h : Beginning s mode t) (ht : t.Sound)
    (hlive : s.stage.live = none) (hsettled : s.stage.Settled) : t.Failed ∨ t.Orderly := by
  have hstopped : s.stage.stop = s.stage := by rw [Stage.stop, hlive]
  cases h with
  | breaks e _ => exact Or.inl (failed_fail _ _)
  | reports hu _ =>
    obtain ⟨_, _, _, _, _, _, rfl⟩ := hu
    right
    rw [setStatus_eq, setStatus_eq] at ht ⊢
    refine orderly_of_settled ht hlive hsettled ?_
    intro hidle
    cases hidle
  | @renders u segments stats hu _ =>
    have hstage : u.stage = s.stage := hu.stage_eq
    right
    rw [renderAll, setStatus_eq, recorded, setStatus_eq] at ht ⊢
    refine orderly_of_settled ht (Stage.live_stop u.stage) ?_ ?_
    · rw [← hstopped, ← hstage] at hsettled
      exact hsettled
    · intro hidle
      cases hidle
  | @grows u segments stats hu _ =>
    have hstage : (u.recorded .grow segments stats).stage = s.stage := by
      rw [recorded, setStatus_eq]
      exact hu.stage_eq
    obtain ⟨e, stage, _, heq⟩ | ⟨n, _, heq⟩ :=
      beginGrowth_cases (u.recorded .grow segments stats) segments.toArray
    · rw [heq]
      exact Or.inl (failed_fail _ _)
    · right
      rw [heq, setStatus_eq, hstage, hstopped] at ht ⊢
      generalize (u.recorded .grow segments stats).delay = delay at ht ⊢
      have hadded : ∀ id, (s.stage.clear.addDetached segments.toArray (.whole n) delay).growths[id]? =
          if id = s.stage.growths.size then some (.new segments.toArray (.whole n) delay)
          else s.stage.growths[id]? :=
        s.stage.clear.growth_addDetached segments.toArray (.whole n) delay
      refine ⟨ht, ?_, ?_, ?_⟩
      · intro id g hg hne
        have hold : id ≠ s.stage.growths.size := by
          rintro rfl
          exact hne rfl
        have hbefore := (hadded id).symm.trans hg
        rw [if_neg hold] at hbefore
        exact hsettled id g hbefore
      · intro id g hl hg
        obtain rfl := Option.some.inj hl
        have hnew := (hadded s.stage.growths.size).symm.trans hg
        rw [if_pos rfl] at hnew
        obtain rfl := Option.some.inj hnew
        exact ⟨rfl, rfl, Or.inr rfl⟩
      · intro hidle
        cases hidle

/-- The last batch completes its growth; any other leaves something to draw. -/
theorem Ticking.orderly {s t : Session} {id : Nat} (h : Ticking s id t) (hs : s.Orderly)
    (hphase : s.phase = .growing id) (ht : t.Sound) : t.Failed ∨ t.Orderly := by
  -- what is live is what is about to draw
  have hlive : ∀ k, s.stage.live = some k → k = id := by
    intro k hl
    have hg := Array.getElem?_eq_getElem (hs.sound.stage.live_lt k hl)
    obtain ⟨hgrowth, _⟩ := hs.live k _ hl hg
    rw [hphase] at hgrowth
    exact (Option.some.inj hgrowth).symm
  have hended : ∀ {u : Session}, (u.endGrowth id).phase = .idle → (u.endGrowth id).pending = none := by
    intro u hidle
    rw [phase_endGrowth] at hidle
    cases hidle
  cases h with
  | rests hr =>
    have hnone : s.stage.live = none := by
      cases hl : s.stage.live with
      | none => rfl
      | some k =>
        obtain rfl := hlive k hl
        rcases hr with hne | ⟨g, hg, hc⟩
        · exact absurd hl hne
        · obtain ⟨_, hcancelled, _⟩ := hs.live k g hl hg
          rw [hcancelled] at hc
          cases hc
    have hstage : s.stage.release id = s.stage := by
      rw [Stage.release, if_neg (by simp [hnone])]
    rw [hstage] at ht ⊢
    refine Or.inr (orderly_of_settled ht ?_ ?_ hended)
    · rw [stage_endGrowth]
      exact hnone
    · rw [stage_endGrowth]
      intro k g hg
      exact hs.settled k g hg (by simp [hnone])
  | @lasts g hd hlast =>
    refine Or.inr (orderly_of_settled ht ?_ ?_ hended)
    · rw [stage_endGrowth]
    · rw [stage_endGrowth]
      intro k g' hg'
      rcases hd.drawBatch_cases hg' with ⟨rfl, rfl⟩ | ⟨hne, hold⟩
      · exact Or.inl ⟨decide_eq_true (Nat.le_of_eq hlast.symm), hd.cancelled⟩
      · apply hs.settled k g' hold
        intro hl
        exact hne (hlive k hl)
  | @waits g seconds hd hmore _ =>
    refine Or.inr ⟨ht, ?_, ?_, ?_⟩
    · intro k g' hg' hne
      rcases hd.drawBatch_cases hg' with ⟨rfl, _⟩ | ⟨_, hold⟩
      · exact absurd hd.live hne
      · exact hs.settled k g' hold hne
    · intro k g' hl hg'
      rcases hd.drawBatch_cases hg' with ⟨rfl, rfl⟩ | ⟨hne, _⟩
      · exact ⟨rfl, hd.cancelled, Or.inl hmore⟩
      · exact absurd (hlive k hl) hne
    · intro hidle
      cases hidle
  | breaks _ _ => exact Or.inl (failed_fail _ _)

theorem Stepping.orderly {s t : Session} (h : Stepping s t) (hs : s.Orderly) :
    t.Failed ∨ t.Orderly := by
  have ht := h.sound hs.sound
  cases h with
  | idles _ => exact Or.inr hs
  | ends hphase hp =>
    have hlive := hs.live_eq_none (by rw [hphase]; rfl)
    refine Or.inr (orderly_of_settled ht hlive ?_ fun _ => hp)
    intro id g hg
    exact hs.settled id g hg (by simp [hlive])
  | begins hphase hp hbegin =>
    refine hbegin.orderly ht (Stage.live_stop _) (hs.settled_stop ?_)
    intro id hgrowing
    rw [hphase] at hgrowing
    cases hgrowing
  | ticks hphase htick => exact htick.orderly hs hphase ht
  | @resumes id hphase =>
    refine Or.inr (hs.kept ht rfl ?_ ?_ ?_)
    · rw [hphase]
      rfl
    · intro k hgrowing
      rw [hphase] at hgrowing
      cases hgrowing
    · intro hidle
      cases hidle
  | @performs id c rest _ hphase heffect =>
    have hgrowth : ∀ k, (Phase.waiting id rest).growth? = some k → s.phase.growth? = some k := by
      intro k hk
      rw [hphase]
      exact hk
    have hwait : Orderly { s with phase := .waiting id rest } := by
      refine hs.kept (hs.sound.later .refl hgrowth) rfl ?_ ?_ ?_
      · rw [hphase]
        rfl
      · intro k hgrowing
        rw [hphase] at hgrowing
        cases hgrowing
      · intro hidle
        cases hidle
    refine heffect.orderly hwait ?_
    intro k hgrowing
    cases hgrowing

theorem orderly_settle (s : Session) (hs : s.Orderly) (hok : s.settle.failure = none) :
    s.settle.Orderly := by
  induction s using settle.induct with
  | case1 s hrun ih =>
    rw [settle_of_running hrun] at hok ⊢
    rcases (stepping_step hs.sound.stage).orderly hs with ⟨hidle, hfailure⟩ | hnext
    · rw [settle_of_idle hidle] at hok
      exact absurd hok hfailure
    · exact ih hnext hok
  | case2 s hrest =>
    rw [settle, dif_neg hrest]
    exact hs

/-- A command that does not fail brings a session at rest back to rest, whatever is done in the
waits, and every growth that was ever made has then drawn everything without being cancelled, or was
cancelled before it had drawn everything. -/
theorem idle_command {s : Session} {c : SessionCommand} (hs : Reached s) (hidle : s.Idle)
    (hsettled : s.stage.Settled) (hok : (s.command c).failure = none) :
    (s.command c).Idle ∧ (s.command c).stage.Settled := by
  generalize hfresh : ({ s with reply := none, failure := none } : Session) = u at *
  have hu : u.Orderly := by
    subst hfresh
    exact orderly_of_settled (hs.sound.later .refl fun _ hid => hid) hidle.live hsettled
      fun _ => hidle.pending
  have hphase : ∀ id, u.phase ≠ .growing id := by
    subst hfresh
    intro id hgrowing
    cases hidle.phase.symm.trans hgrowing
  have hcommand : s.command c = if answers c then (u.perform c).settle else
      { (u.perform c).settle with reply := none } := by
    rw [command, hfresh]
  have hok' : (u.perform c).settle.failure = none := by
    rw [hcommand] at hok
    split at hok
    · exact hok
    · exact hok
  have hend : (u.perform c).settle.Orderly := by
    rcases (effect_perform u c).orderly hu hphase with ⟨hfailed, hfailure⟩ | hperformed
    · rw [settle_of_idle hfailed] at hok'
      exact absurd hok' hfailure
    · exact orderly_settle _ hperformed hok'
  have hrest := phase_settle (u.perform c)
  have hlive := hend.live_eq_none (by rw [hrest]; rfl)
  have hall : (u.perform c).settle.stage.Settled := by
    intro id g hg
    exact hend.settled id g hg (by simp [hlive])
  rw [hcommand]
  split
  · exact ⟨⟨hrest, hend.pending hrest, hlive⟩, hall⟩
  · exact ⟨⟨hrest, hend.pending hrest, hlive⟩, hall⟩

/-- Of two growths the first was cancelled in its wait, and the second has drawn everything. -/
theorem growsAgain_comes_to_rest :
    (growsAgain.command (.run (some (.text "grow".toList)))).Idle ∧
      (growsAgain.command (.run (some (.text "grow".toList)))).stage.Settled ∧
      (growsAgain.command (.run (some (.text "grow".toList)))).stage.growths.toList.map
        (fun g => (g.done, g.cancelled)) = [(false, true), (true, false)] := by
  have hidle : growsAgain.Idle := ⟨rfl, rfl, rfl⟩
  have hsettled : growsAgain.stage.Settled := by
    intro id g hg
    cases hg
  have hok : (growsAgain.command (.run (some (.text "grow".toList)))).failure = none := by
    rw [command_growsAgain]
    exact Option.isNone_iff_eq_none.1 (by decide +kernel)
  obtain ⟨hrest, hend⟩ := idle_command reached_growsAgain hidle hsettled hok
  refine ⟨hrest, hend, ?_⟩
  rw [command_growsAgain]
  decide +kernel

end Session

end Lindenmayer
