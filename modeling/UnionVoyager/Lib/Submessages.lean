import Mathlib.Logic.Basic

/-!
# Contracts that call each other

A call is handled by its contract, which asks for further calls; these are carried out one after the
other, each with all that it causes, before anything else happens.  A call that fails leaves no
trace, and takes the calls around it with it unless its contract asked to hear of the failure.

* `Runs.call_iff`, `Runs.cons_iff`, `Runs.heard_iff` — the rules of a call, of a list of calls and of a reply;
  `Runs.deterministic`.
* `Runs.rel_of_reached` — **what every call on the way does to the world, the whole does.**
-/

namespace Lib.Submessages

universe u v

/-- A call that is asked for, and what of its outcome is to be reported under the identifier. -/
structure Sub (C R : Type u) where
  call : C
  id : R
  onSuccess : Bool
  onError : Bool

/-- What the contracts do with a call and with a report; `none` is a failure. -/
structure System (W : Type v) (C O R : Type u) where
  owner : C → O
  exec : C → W → Option (W × List (Sub C R))
  reply : O → R → Bool → W → Option (W × List (Sub C R))

/-- A call, the calls a contract asked for, and the report of one of them. -/
inductive Task (C O R : Type u) where
  | call (c : C)
  | subs (o : O) (ss : List (Sub C R))
  | heard (o : O) (s : Sub C R) (ok : Bool)

variable {W : Type v} {C O R : Type u}

/-- The contract asked to hear of this outcome. -/
def Sub.wants (s : Sub C R) (ok : Bool) : Bool := if ok then s.onSuccess else s.onError

/-- The task ends in this world, or it fails. -/
inductive Runs (S : System W C O R) : Task C O R → W → Option W → Prop where
  | refused {c : C} {w : W} (h : S.exec c w = none) : Runs S (.call c) w none
  | accepted {c : C} {w w' : W} {ss : List (Sub C R)} {r : Option W} (h : S.exec c w = some (w', ss))
      (hs : Runs S (.subs (S.owner c) ss) w' r) : Runs S (.call c) w r
  | done {o : O} {w : W} : Runs S (.subs o []) w (some w)
  | next {o : O} {s : Sub C R} {ss : List (Sub C R)} {w w' : W} {r₁ r : Option W}
      (h : Runs S (.call s.call) w r₁) (hr : Runs S (.heard o s r₁.isSome) (r₁.getD w) (some w'))
      (hs : Runs S (.subs o ss) w' r) : Runs S (.subs o (s :: ss)) w r
  | stopped {o : O} {s : Sub C R} {ss : List (Sub C R)} {w : W} {r₁ : Option W}
      (h : Runs S (.call s.call) w r₁) (hr : Runs S (.heard o s r₁.isSome) (r₁.getD w) none) :
      Runs S (.subs o (s :: ss)) w none
  | unheard {o : O} {s : Sub C R} {w : W} (h : s.onSuccess = false) : Runs S (.heard o s true) w (some w)
  | unhandled {o : O} {s : Sub C R} {w : W} (h : s.onError = false) : Runs S (.heard o s false) w none
  | rejected {o : O} {s : Sub C R} {ok : Bool} {w : W} (h : s.wants ok = true)
      (hr : S.reply o s.id ok w = none) : Runs S (.heard o s ok) w none
  | answered {o : O} {s : Sub C R} {ok : Bool} {w w' : W} {ss : List (Sub C R)} {r : Option W}
      (h : s.wants ok = true) (hr : S.reply o s.id ok w = some (w', ss)) (hs : Runs S (.subs o ss) w' r) :
      Runs S (.heard o s ok) w r

variable {S : System W C O R} {t : Task C O R} {c d : C} {o : O} {s : Sub C R} {ss : List (Sub C R)}
  {ok : Bool} {w w' : W} {r r' : Option W}

/-! ## The rules -/

theorem Runs.call_iff : Runs S (.call c) w r ↔ S.exec c w = none ∧ r = none ∨
      ∃ w' ss, S.exec c w = some (w', ss) ∧ Runs S (.subs (S.owner c) ss) w' r := by
  constructor
  · intro h
    cases h with
    | refused h => exact .inl ⟨h, rfl⟩
    | accepted h hs => exact .inr ⟨_, _, h, hs⟩
  · rintro (⟨h, rfl⟩ | ⟨w', ss, h, hs⟩)
    · exact .refused h
    · exact .accepted h hs

@[simp] theorem Runs.nil_iff : Runs S (.subs o []) w r ↔ r = some w := by
  constructor
  · intro h
    cases h
    rfl
  · rintro rfl
    exact .done

theorem Runs.cons_iff : Runs S (.subs o (s :: ss)) w (some w') ↔ ∃ r₁ w₁, Runs S (.call s.call) w r₁ ∧
      Runs S (.heard o s r₁.isSome) (r₁.getD w) (some w₁) ∧ Runs S (.subs o ss) w₁ (some w') := by
  constructor
  · intro h
    cases h with
    | next h hr hs => exact ⟨_, _, h, hr, hs⟩
  · rintro ⟨r₁, w₁, h, hr, hs⟩
    exact .next h hr hs

theorem Runs.heard_iff : Runs S (.heard o s ok) w (some w') ↔ s.wants ok = false ∧ ok = true ∧ w' = w ∨
      s.wants ok = true ∧ ∃ w₁ ss, S.reply o s.id ok w = some (w₁, ss) ∧
        Runs S (.subs o ss) w₁ (some w') := by
  constructor
  · intro h
    cases h with
    | unheard h => exact .inl ⟨h, rfl, rfl⟩
    | answered h hr hs => exact .inr ⟨h, _, _, hr, hs⟩
  · rintro (⟨h, rfl, rfl⟩ | ⟨h, w₁, ss, hr, hs⟩)
    · exact .unheard h
    · exact .answered h hr hs

theorem Runs.cons_silent_iff (hsuccess : s.onSuccess = false) (herror : s.onError = false) :
    Runs S (.subs o (s :: ss)) w (some w') ↔
      ∃ w₁, Runs S (.call s.call) w (some w₁) ∧ Runs S (.subs o ss) w₁ (some w') := by
  rw [Runs.cons_iff]
  constructor
  · rintro ⟨r₁, w₁, h, hr, hs⟩
    cases r₁ with
    | none =>
      rcases Runs.heard_iff.mp hr with ⟨-, hok, -⟩ | ⟨hwants, -⟩
      · cases hok
      · exact absurd (hwants.symm.trans herror) nofun
    | some w₂ =>
      rcases Runs.heard_iff.mp hr with ⟨-, -, rfl⟩ | ⟨hwants, -⟩
      · exact ⟨_, h, hs⟩
      · exact absurd (hwants.symm.trans hsuccess) nofun
  · rintro ⟨w₁, h, hs⟩
    exact ⟨some w₁, w₁, h, .unheard hsuccess, hs⟩

theorem Runs.deterministic (h : Runs S t w r) : ∀ {r' : Option W}, Runs S t w r' → r = r' := by
  induction h with
  | refused h =>
    intro r' h'
    rcases Runs.call_iff.mp h' with ⟨-, rfl⟩ | ⟨_, _, hexec, -⟩
    · rfl
    · rw [h] at hexec
      cases hexec
  | accepted h _ ih =>
    intro r' h'
    rcases Runs.call_iff.mp h' with ⟨hexec, -⟩ | ⟨_, _, hexec, hs⟩
    · rw [h] at hexec
      cases hexec
    · rw [h] at hexec
      cases hexec
      exact ih hs
  | done =>
    intro r' h'
    cases h'
    rfl
  | next _ _ _ ih ihr ihs =>
    intro r' h'
    cases h' with
    | next h hr hs =>
      obtain rfl := ih h
      cases ihr hr
      exact ihs hs
    | stopped h hr =>
      obtain rfl := ih h
      cases ihr hr
  | stopped _ _ ih ihr =>
    intro r' h'
    cases h' with
    | next h hr hs =>
      obtain rfl := ih h
      cases ihr hr
    | stopped h hr => rfl
  | unheard h =>
    intro r' h'
    cases h' with
    | unheard _ => rfl
    | rejected hwants _ => exact absurd (h.symm.trans hwants) nofun
    | answered hwants _ _ => exact absurd (h.symm.trans hwants) nofun
  | unhandled h =>
    intro r' h'
    cases h' with
    | unhandled | rejected => rfl
    | answered hwants _ _ => exact absurd (h.symm.trans hwants) nofun
  | rejected hwants hr =>
    intro r' h'
    cases h' with
    | unheard h => exact absurd (h.symm.trans hwants) nofun
    | unhandled | rejected => rfl
    | answered _ hr' _ =>
      rw [hr] at hr'
      cases hr'
  | answered hwants hr _ ih =>
    intro r' h'
    cases h' with
    | unheard h => exact absurd (h.symm.trans hwants) nofun
    | unhandled h => exact absurd (h.symm.trans hwants) nofun
    | rejected _ hr' =>
      rw [hr] at hr'
      cases hr'
    | answered _ hr' hs =>
      rw [hr] at hr'
      cases hr'
      exact ih hs

/-! ## On the way -/

/-- In carrying out the first task the second one is begun in the last of these worlds, while the
calls of the list are being carried out, the innermost first, each with the world it was begun in.
-/
inductive Reaches (S : System W C O R) : Task C O R → W → List (C × W) → Task C O R → W → Prop where
  | start {t : Task C O R} {w : W} : Reaches S t w [] t w
  | within {c : C} {t : Task C O R} {w w₁ w' : W} {ss : List (Sub C R)} {around : List (C × W)}
      (h : S.exec c w = some (w₁, ss)) (hs : Reaches S (.subs (S.owner c) ss) w₁ around t w') :
      Reaches S (.call c) w (around ++ [(c, w)]) t w'
  | first {o : O} {s : Sub C R} {ss : List (Sub C R)} {t : Task C O R} {w w' : W} {around : List (C × W)}
      (h : Reaches S (.call s.call) w around t w') : Reaches S (.subs o (s :: ss)) w around t w'
  | hearing {o : O} {s : Sub C R} {ss : List (Sub C R)} {t : Task C O R} {w w' : W} {r : Option W}
      {around : List (C × W)} (h : Runs S (.call s.call) w r)
      (hr : Reaches S (.heard o s r.isSome) (r.getD w) around t w') :
        Reaches S (.subs o (s :: ss)) w around t w'
  | later {o : O} {s : Sub C R} {ss : List (Sub C R)} {t : Task C O R} {w w₁ w' : W} {r : Option W}
      {around : List (C × W)} (h : Runs S (.call s.call) w r)
      (hr : Runs S (.heard o s r.isSome) (r.getD w) (some w₁)) (hs : Reaches S (.subs o ss) w₁ around t w') :
      Reaches S (.subs o (s :: ss)) w around t w'
  | answering {o : O} {s : Sub C R} {ok : Bool} {t : Task C O R} {w w₁ w' : W} {ss : List (Sub C R)}
      {around : List (C × W)} (h : s.wants ok = true) (hr : S.reply o s.id ok w = some (w₁, ss))
      (hs : Reaches S (.subs o ss) w₁ around t w') : Reaches S (.heard o s ok) w around t w'

variable {around rest : List (C × W)} {p : C} {t' : Task C O R} {w₁ : W}

/-- The contract answers a report with the call. -/
def System.Answers (S : System W C O R) (o : O) (d : C) : Prop :=
  ∃ i ok w w' ss, S.reply o i ok w = some (w', ss) ∧ ∃ s ∈ ss, s.call = d

/-- The call is the task, or one that its contract asks for. -/
def Task.Begins (S : System W C O R) (d : C) : Task C O R → Prop
  | .call c => c = d
  | .subs o ss => (∃ s ∈ ss, s.call = d) ∨ S.Answers o d
  | .heard o _ _ => S.Answers o d

theorem Reaches.begins (h : Reaches S t w [] (.call d) w') : t.Begins S d := by
  generalize hnil : ([] : List (C × W)) = around at h
  generalize hd : Task.call d = t' at h
  induction h with
  | start =>
    subst hd
    exact rfl
  | within _ _ _ => exact absurd hnil.symm (by simp)
  | first _ ih => exact .inl ⟨_, List.mem_cons_self .., ih hnil hd⟩
  | hearing _ _ ih => exact .inr (ih hnil hd)
  | later _ _ _ ih =>
    rcases ih hnil hd with ⟨s, hs, hcall⟩ | hanswers
    · exact .inl ⟨s, List.mem_cons_of_mem _ hs, hcall⟩
    · exact .inr hanswers
  | answering _ hr _ ih =>
    rcases ih hnil hd with hasked | hanswers
    · exact ⟨_, _, _, _, _, hr, hasked⟩
    · exact hanswers

theorem Reaches.ancestor (h : Reaches S t w around t' w') :
    ∀ {l : List (C × W)}, around = l ++ (p, w₁) :: rest → Reaches S t w rest (.call p) w₁ := by
  induction h generalizing rest with
  | start =>
    intro l hl
    exact absurd hl.symm (by simp)
  | @within c t w w₂ w' ss around h hs ih =>
    intro l hl
    rcases List.eq_nil_or_concat rest with rfl | ⟨rest', last, rfl⟩
    · have hlast := List.append_inj' hl rfl
      obtain ⟨rfl, rfl⟩ := Prod.mk.inj (List.cons.inj hlast.2).1
      exact .start
    · have hsplit : around ++ [(c, w)] = (l ++ (p, w₁) :: rest') ++ [last] := by simpa using hl
      obtain ⟨hinner, hlast⟩ := List.append_inj' hsplit rfl
      obtain rfl := (List.cons.inj hlast).1
      simpa using Reaches.within h (ih hinner)
  | first _ ih =>
    intro l hl
    exact .first (ih hl)
  | hearing h _ ih =>
    intro l hl
    exact .hearing h (ih hl)
  | later h hr _ ih =>
    intro l hl
    exact .later h hr (ih hl)
  | answering h hr _ ih =>
    intro l hl
    exact .answering h hr (ih hl)

theorem Reaches.parent (h : Reaches S t w around t' w') : around = (p, w₁) :: rest →
      ∃ w₂ ss, S.exec p w₁ = some (w₂, ss) ∧ Reaches S (.subs (S.owner p) ss) w₂ [] t' w' := by
  induction h generalizing rest with
  | start => exact nofun
  | @within c t w w₂ w' ss around h hs ih =>
    intro haround
    cases around with
    | nil =>
      obtain ⟨rfl, rfl⟩ := Prod.mk.inj (List.cons.inj haround).1
      exact ⟨_, _, h, hs⟩
    | cons q around =>
      obtain ⟨rfl, -⟩ := List.cons.inj haround
      exact ih rfl
  | first _ ih => exact ih
  | hearing _ _ ih => exact ih
  | later _ _ _ ih => exact ih
  | answering _ _ _ ih => exact ih

theorem Runs.rel_of_reached {P : W → W → Prop} (hrefl : ∀ w, P w w)
    (htrans : ∀ {a b c}, P a b → P b c → P a c)
    (hreply : ∀ {o i ok w w' ss}, S.reply o i ok w = some (w', ss) → P w w') (h : Runs S t w r) :
    (∀ {around c w₁ w₂ ss}, Reaches S t w around (.call c) w₁ → S.exec c w₁ = some (w₂, ss) →
      P w₁ w₂) → P w (r.getD w) := by
  induction h with
  | refused _ => exact fun _ => hrefl _
  | @accepted c w w₁ ss r h _ ih =>
    intro hexec
    have hrest := ih fun hreached => hexec (.within h hreached)
    cases r with
    | none => exact hrefl _
    | some w' => exact htrans (hexec .start h) hrest
  | done => exact fun _ => hrefl _
  | @next o s ss w w₁ r₁ r h hr _ ih ihr ihs =>
    intro hexec
    have hcall := ih fun hreached => hexec (.first hreached)
    have hheard := ihr fun hreached => hexec (.hearing h hreached)
    have hrest := ihs fun hreached => hexec (.later h hr hreached)
    cases r with
    | none => exact hrefl _
    | some w' => exact htrans (htrans hcall hheard) hrest
  | stopped | unheard | unhandled | rejected => exact fun _ => hrefl _
  | @answered o s ok w w₁ ss r h hr _ ih =>
    intro hexec
    have hrest := ih fun hreached => hexec (.answering h hr hreached)
    cases r with
    | none => exact hrefl _
    | some w' => exact htrans (hreply hr) hrest

end Lib.Submessages
