import Lindenmayer.CommandLine.Options
import Lindenmayer.Proofs.Stages
import Lindenmayer.Proofs.Text.Margins

/-!
# Command lines in pieces

Most of a command line can be read piece by piece. What stands in front of an option is read
regardless of it, and the options that a piece makes are changed further by the next one. An option
with its value attached is a piece of its own.
-/
namespace Lindenmayer

/-! ### A value that is attached to an option -/

section Attached

variable {ο : Type} {forms : List (OptionForm ο)} {form : OptionForm ο}
  (hvalue : form.takesValue = true)
include hvalue

theorem Item.unpack_of_takesValue (attached : List Char) :
    unpack forms form attached = .ok ([ofAttached form attached], none) := by
  unfold unpack
  exact if_pos hvalue

theorem Item.ofTokens_attached (free short : Bool) (attached : List Char)
    (rest : List (Token ο)) :
    ofTokens forms free (.option form short (some attached) :: rest) =
      ofAttached form attached :: ofTokens forms free rest := by
  have hoption : ofOption forms form short (some attached) =
      .ok ([ofAttached form attached], none) := by
    rw [ofOption, if_pos (by rw [hvalue, Bool.or_true])]
    exact unpack_of_takesValue hvalue attached
  rw [ofTokens, hoption]
  rfl

end Attached

theorem OptionForm.mem_names_of_named? {ο : Type} {forms : List (OptionForm ο)} {name : List Char}
    {form : OptionForm ο} (h : named? forms name = some form) : name ∈ form.names := by
  rw [named?] at h
  have hcontains := List.find?_some h
  exact List.contains_iff_mem.1 hcontains

namespace Token

variable {ο : Type} {forms : List (OptionForm ο)}

/-- A value after an equals sign is attached to the name before it. -/
theorem ofArgument_attached (hplain : ∀ f ∈ forms, ∀ name ∈ f.names, '=' ∉ name) {c : Char}
    {rest : List Char} {form : OptionForm ο}
    (hname : OptionForm.named? forms ('-' :: c :: rest) = some form) (value : List Char) :
    ofArgument forms ('-' :: c :: rest ++ '=' :: value) =
      .ok (.option form (!isLong ('-' :: c :: rest)) (some value)) := by
  have hnamed {name : List Char} {f : OptionForm ο}
      (h : OptionForm.named? forms name = some f) : '=' ∉ name :=
    hplain f (List.mem_of_find?_eq_some h) name (OptionForm.mem_names_of_named? h)
  have hwhole : OptionForm.named? forms ('-' :: c :: rest ++ '=' :: value) = none := by
    cases h : OptionForm.named? forms ('-' :: c :: rest ++ '=' :: value) with
    | none => rfl
    | some f => exact absurd (List.mem_append_right _ List.mem_cons_self) (hnamed h)
  have hcut : cutAttached ('-' :: c :: rest ++ '=' :: value) = ('-' :: c :: rest, some value) := by
    rw [cutAttached, Text.cutAt?_append (hnamed hname)]
  have hdashed : ofDashed forms ('-' :: c :: rest ++ '=' :: value) =
      .ok (.option form (!isLong ('-' :: c :: rest)) (some value)) := by
    rw [ofDashed, hcut]
    simp [hname]
  unfold ofArgument
  simp only [List.cons_append] at hwhole hdashed ⊢
  simp only [hwhole, hdashed]

end Token

/-! ### Tokens and items that concern other options -/

section Tokens

variable {ο : Type} {forms : List (OptionForm ο)} {P : ο → Prop}

/-- What the token says of an option, it says of one that satisfies `P`. -/
def Token.Concerns (P : ο → Prop) : Token ο → Prop
  | .option form _ _ => P form.option
  | _ => True

def Item.Concerns (P : ο → Prop) : Item ο → Prop
  | .flag form => P form.option
  | .setting form _ => P form.option
  | .void form => P form.option
  | _ => True

/-- Tokens that begin with an option, if there are any. Whatever stands in front of them is read
regardless of them. -/
inductive Token.Opens : List (Token ο) → Prop
  | nil : Token.Opens []
  | option (form : OptionForm ο) (short : Bool) (attached : Option (List Char))
      (rest : List (Token ο)) : Token.Opens (.option form short attached :: rest)

theorem Token.ofArguments_append {front : List (List Char)} (h : Token.twoDashes ∉ front)
    (back : List (List Char)) :
    Token.ofArguments forms (front ++ back) =
      Token.ofArguments forms front >>= fun s =>
        (Token.ofArguments forms back).map (s ++ ·) := by
  induction front with
  | nil =>
    rw [List.nil_append]
    cases Token.ofArguments forms back <;> rfl
  | cons argument front ih =>
    obtain ⟨hdash, hfront⟩ : Token.twoDashes ≠ argument ∧ Token.twoDashes ∉ front := by
      simpa using h
    rw [List.cons_append, Token.ofArguments, Token.ofArguments, if_neg (Ne.symm hdash),
      if_neg (Ne.symm hdash)]
    cases Token.ofArgument forms argument with
    | error e => rfl
    | ok t =>
      dsimp only
      rw [ih hfront]
      cases Token.ofArguments forms front with
      | error e => rfl
      | ok s => cases Token.ofArguments forms back <;> rfl

theorem Token.Opens.append_ne {rest back : List (Token ο)} (h : Token.Opens back) {t : Token ο}
    (ht : ∀ form short attached, t ≠ .option form short attached)
    (hrest : ∀ r, rest ≠ t :: r) (r : List (Token ο)) : rest ++ back ≠ t :: r := by
  cases rest with
  | nil =>
    cases h with
    | nil =>
      intro heq
      cases heq
    | option form short attached =>
      intro heq
      exact ht form short attached (List.cons.inj heq).1.symm
  | cons first rest =>
    intro heq
    exact hrest rest (by rw [(List.cons.inj heq).1])

namespace Item

variable {free : Bool}

theorem ofTokens_word {s : List Char} {rest : List (Token ο)} (h : ∀ r, rest ≠ .dashes :: r) :
    ofTokens forms true (.word s :: rest) = .word s :: ofTokens forms false rest := by
  rw [ofTokens]
  · exact if_pos rfl
  · exact h

theorem ofTokens_missingValue {form last : OptionForm ο} {short : Bool}
    {attached : Option (List Char)} {done : List (Item ο)} {rest : List (Token ο)}
    (hoption : ofOption forms form short attached = .ok (done, some last))
    (h : ∀ v r, rest ≠ .word v :: r) :
    ofTokens forms free (.option form short attached :: rest) =
      [.fault (.missingValue last)] := by
  rw [ofTokens, hoption]
  dsimp only
  split
  · next v r => exact absurd rfl (h v r)
  · rfl

/-- The options that are packed into one argument are the first of them and such as are named by one
letter. -/
theorem concerns_of_unpack (hshort : ∀ c form, OptionForm.named? forms ['-', c] = some form →
      P form.option) {form : OptionForm ο} {attached : List Char} (hform : P form.option)
    {done : List (Item ο)} {last : Option (OptionForm ο)}
    (h : unpack forms form attached = .ok (done, last)) :
    (∀ item ∈ done, item.Concerns P) ∧ ∀ l, last = some l → P l.option := by
  induction form, attached using unpack.induct forms generalizing done last with
  | case1 attached form hvalue =>
    rw [unpack_of_takesValue hvalue] at h
    cases h
    refine ⟨?_, nofun⟩
    rintro item hitem
    obtain rfl := List.mem_singleton.1 hitem
    unfold ofAttached
    split
    · exact hform
    · exact hform
  | case2 form hvalue =>
    unfold unpack at h
    rw [if_neg hvalue] at h
    cases h
  | case3 form hvalue c rest hname =>
    unfold unpack at h
    simp only [if_neg hvalue, hname] at h
    cases h
  | case4 form hvalue c following hname hfollowing =>
    unfold unpack at h
    simp only [if_neg hvalue, hname, if_pos hfollowing] at h
    cases h
    simpa [Concerns, hform] using hshort c following hname
  | case5 form hvalue c following hname hfollowing =>
    unfold unpack at h
    simp only [if_neg hvalue, hname, if_neg hfollowing] at h
    cases h
    simpa [Concerns, hform] using hshort c following hname
  | case6 form hvalue c following d rest hname ih =>
    unfold unpack at h
    simp only [if_neg hvalue, hname] at h
    obtain ⟨⟨done', last'⟩, hrest, hr⟩ := map_ok h
    obtain ⟨rfl, rfl⟩ := Prod.mk.inj hr
    obtain ⟨hdone, hlast⟩ := ih (hshort c following hname) hrest
    exact ⟨List.forall_mem_cons.2 ⟨hform, hdone⟩, hlast⟩

theorem concerns_of_ofOption (hshort : ∀ c form, OptionForm.named? forms ['-', c] = some form →
      P form.option) {form : OptionForm ο} {short : Bool} {attached : Option (List Char)}
    (hform : P form.option) {done : List (Item ο)} {last : Option (OptionForm ο)}
    (h : ofOption forms form short attached = .ok (done, last)) :
    (∀ item ∈ done, item.Concerns P) ∧ ∀ l, last = some l → P l.option := by
  unfold ofOption at h
  split at h
  · split at h
    · cases h
      exact ⟨nofun, fun l hl => Option.some.inj hl ▸ hform⟩
    · cases h
      exact ⟨by simpa [Concerns] using hform, nofun⟩
  · split at h
    · exact concerns_of_unpack hshort hform h
    · cases h

/-- What tokens come to in front of such as begin with an option: to the items and a fault among
them, or to the items and whatever the others come to. -/
inductive ReadsAhead (forms : List (OptionForm ο)) (free : Bool) (front : List (Token ο))
    (items : List (Item ο)) : Prop
  | stuck (e : ArgumentFault ο) (hfault : .fault e ∈ items)
      (hread : ∀ {back}, Token.Opens back → ofTokens forms free (front ++ back) = items)
  | goesOn (free' : Bool) (hread : ∀ {back}, Token.Opens back →
      ofTokens forms free (front ++ back) = items ++ ofTokens forms free' back)

theorem ReadsAhead.after {free' : Bool} {front rest : List (Token ο)} {items : List (Item ο)}
    (h : ReadsAhead forms free' rest items) (done : List (Item ο))
    (hread : ∀ {back}, Token.Opens back →
      ofTokens forms free (front ++ back) = done ++ ofTokens forms free' (rest ++ back)) :
    ReadsAhead forms free front (done ++ items) := by
  cases h with
  | stuck e hfault hrest =>
    refine .stuck e (List.mem_append_right done hfault) fun hback => ?_
    rw [hread hback, hrest hback]
  | goesOn free'' hrest =>
    refine .goesOn free'' fun hback => ?_
    rw [hread hback, hrest hback, List.append_assoc]

/-- Tokens are read regardless of what follows them if that begins with an option. -/
theorem exists_readsAhead (hshort : ∀ c form, OptionForm.named? forms ['-', c] = some form →
      P form.option) (free : Bool) (front : List (Token ο)) (hfront : ∀ t ∈ front, t.Concerns P) :
    ∃ items, (∀ item ∈ items, item.Concerns P) ∧ ReadsAhead forms free front items := by
  induction free, front using ofTokens.induct forms with
  | case1 free => exact ⟨[], nofun, .goesOn free fun _ => rfl⟩
  | case2 free s rest ih =>
    obtain ⟨items, hitems, hrest⟩ := ih fun t ht => hfront t (List.mem_cons_of_mem _ ht)
    exact ⟨.leftOver s :: items, List.forall_mem_cons.2 ⟨trivial, hitems⟩,
      hrest.after [.leftOver s] fun _ => by rw [List.cons_append, ofTokens]; rfl⟩
  | case3 rest ih =>
    obtain ⟨items, hitems, hrest⟩ := ih fun t ht => hfront t (List.mem_cons_of_mem _ ht)
    exact ⟨items, hitems, hrest.after [] fun _ => by rw [List.cons_append, ofTokens]; rfl⟩
  | case4 free rest hfree ih =>
    obtain ⟨items, hitems, hrest⟩ := ih fun t ht => hfront t (List.mem_cons_of_mem _ ht)
    refine ⟨.leftOver Token.twoDashes :: items, List.forall_mem_cons.2 ⟨trivial, hitems⟩,
      hrest.after [.leftOver Token.twoDashes] fun _ => ?_⟩
    rw [List.cons_append, ofTokens, if_neg hfree]
    rfl
  | case5 s rest ih =>
    obtain ⟨items, hitems, hrest⟩ := ih fun t ht =>
      hfront t (List.mem_cons_of_mem _ (List.mem_cons_of_mem _ ht))
    exact ⟨.word s :: items, List.forall_mem_cons.2 ⟨trivial, hitems⟩,
      hrest.after [.word s] fun _ => rfl⟩
  | case6 s rest hdashes ih =>
    obtain ⟨items, hitems, hrest⟩ := ih fun t ht => hfront t (List.mem_cons_of_mem _ ht)
    refine ⟨.word s :: items, List.forall_mem_cons.2 ⟨trivial, hitems⟩,
      hrest.after [.word s] fun hback => ?_⟩
    exact ofTokens_word (hback.append_ne nofun hdashes)
  | case7 free s rest hfree ih =>
    obtain ⟨items, hitems, hrest⟩ := ih fun t ht => hfront t (List.mem_cons_of_mem _ ht)
    refine ⟨.leftOver s :: items, List.forall_mem_cons.2 ⟨trivial, hitems⟩,
      hrest.after [.leftOver s] fun _ => ?_⟩
    rw [List.cons_append, ofTokens.eq_def]
    exact if_neg hfree
  | case8 free form short attached rest e hoption =>
    refine ⟨[.fault e], by simp [Concerns], .stuck e List.mem_cons_self fun _ => ?_⟩
    rw [List.cons_append, ofTokens, hoption]
  | case9 free form short attached rest done hoption ih =>
    obtain ⟨hform, hrest⟩ := List.forall_mem_cons.1 hfront
    obtain ⟨items, hitems, hrest⟩ := ih hrest
    obtain ⟨hdone, -⟩ := concerns_of_ofOption hshort hform hoption
    refine ⟨_, List.forall_mem_append.2 ⟨hdone, hitems⟩, hrest.after done fun _ => ?_⟩
    rw [List.cons_append, ofTokens, hoption]
  | case10 free form short attached done last hoption v rest ih =>
    obtain ⟨hform, hrest⟩ := List.forall_mem_cons.1 hfront
    obtain ⟨items, hitems, hrest⟩ := ih (List.forall_mem_cons.1 hrest).2
    obtain ⟨hdone, hlast⟩ := concerns_of_ofOption hshort hform hoption
    have hsetting : Concerns P (.setting last v) := hlast last rfl
    refine ⟨_, List.forall_mem_append.2 ⟨List.forall_mem_append.2 ⟨hdone, by simpa using hsetting⟩,
      hitems⟩, hrest.after (done ++ [.setting last v]) fun _ => ?_⟩
    rw [List.cons_append, List.cons_append, ofTokens, hoption, List.append_assoc]
    rfl
  | case11 free form short attached rest done last hoption hword =>
    refine ⟨[.fault (.missingValue last)], by simp [Concerns],
      .stuck _ List.mem_cons_self fun hback => ?_⟩
    exact ofTokens_missingValue hoption fun v => hback.append_ne nofun (hword v)

end Item

end Tokens

/-! ### Items one after the other -/

namespace Options

theorem readItems_append (o : Options) (front back : List (Item OptionKey)) :
    o.readItems (front ++ back) = o.readItems front >>= fun r =>
      (r.1.readItems back).map fun r' => (r'.1, r.2 ++ r'.2) := by
  induction front generalizing o with
  | nil =>
    change o.readItems back = (o.readItems back).map fun r' => (r'.1, [] ++ r'.2)
    cases o.readItems back <;> rfl
  | cons item rest ih =>
    cases item with
    | flag form =>
      rw [List.cons_append, readItems, readItems]
      cases o.withFlag form with
      | error e => rfl
      | ok next => exact ih next
    | setting form v =>
      rw [List.cons_append, readItems, readItems]
      cases (o.withSetting form v).mapError Stop.usage with
      | error e => rfl
      | ok next => exact ih next
    | void form => exact ih _
    | word name =>
      rw [List.cons_append, readItems, readItems]
      cases (o.withPreset name).mapError Stop.usage with
      | error e => rfl
      | ok next => exact ih next
    | leftOver s =>
      rw [List.cons_append, readItems, readItems, ih]
      cases o.readItems rest with
      | error e => rfl
      | ok r =>
        change ((r.1.readItems back).map fun r' => (r'.1, r.2 ++ r'.2)).map _ =
          (r.1.readItems back).map fun r' => (r'.1, s :: r.2 ++ r'.2)
        cases r.1.readItems back <;> rfl
    | fault e => rfl

/-- Nothing is made of items with a fault among them. -/
theorem exists_error_of_fault {e : ArgumentFault OptionKey} {items : List (Item OptionKey)}
    (h : .fault e ∈ items) (o : Options) : ∃ stop, o.readItems items = .error stop := by
  obtain ⟨front, back, rfl⟩ := List.append_of_mem h
  rw [readItems_append]
  cases o.readItems front with
  | error stop => exact ⟨stop, rfl⟩
  | ok r => exact ⟨_, rfl⟩

end Options

end Lindenmayer
