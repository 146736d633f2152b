import Mathlib.Logic.Relation

/-!
# Calls on a stack of frames

A traversal keeps its calls as frames on a stack of its own. A frame may claim a part of a state
that all frames share; it enters that part when it first has its turn and leaves it when it is
popped. A call that throws ends the traversal, and then every frame on the stack leaves what it
entered. `Traversal.restores` says that the shared state is left as it was found, and
`Traversal.runs_calls` that a call is judged by itself, whatever is on the stack below it.
-/

namespace CallStack

/-- What a frame does in its turn. -/
inductive FrameTurn (Φ ρ ε : Type) where
  /-- The frame has another turn. -/
  | goesOn (frame : Φ)
  /-- The frame waits for the result of another frame. -/
  | calls (frame child : Φ)
  | returns (result : ρ)
  | throws (error : ε)

/-- A traversal by frames `Φ` that claim parts `κ` of a shared state `Γ`. -/
structure Traversal (Φ κ Γ ρ ε : Type) where
  /-- What a frame claims before its turn, unless it has entered something already. -/
  claim : Φ → Option κ
  /-- A claimed part is entered, or refused. -/
  enter : Γ → κ → Except ε Γ
  /-- An entered part is left. -/
  leave : Γ → κ → Γ
  /-- The turn of a frame, which gets the result of the frame it called. -/
  acts : Γ → Φ → Option ρ → Γ → FrameTurn Φ ρ ε → Prop

/-- A frame on the stack, with what it has entered. -/
abbrev Held (Φ κ : Type) := Φ × Option κ

/-- The state of a traversal. -/
inductive Config (Φ κ Γ ρ ε : Type) where
  /-- The frames on the stack, and the result of the frame that was popped just before. -/
  | running (shared : Γ) (stack : List (Held Φ κ)) (last : Option ρ)
  | thrown (shared : Γ) (error : ε)

variable {Φ κ Γ ρ ε : Type}

namespace Traversal

variable (T : Traversal Φ κ Γ ρ ε)

/-- What a frame has entered is left. -/
def release (g : Γ) (held : Option κ) : Γ := held.elim g (T.leave g)

/-- All frames of a stack are popped. -/
def unwind (g : Γ) (stack : List (Held Φ κ)) : Γ := stack.foldl (fun g h => T.release g h.2) g

/-- A frame enters what it claims. -/
def opens (g : Γ) (frame : Φ) : Option κ → Except ε (Γ × Option κ)
  | some k => .ok (g, some k)
  | none =>
      match T.claim frame with
      | none => .ok (g, none)
      | some k =>
          match T.enter g k with
          | .error e => .error e
          | .ok g' => .ok (g', some k)

/-- A step of a traversal. -/
inductive Step : Config Φ κ Γ ρ ε → Config Φ κ Γ ρ ε → Prop
  | refused {g : Γ} {frame : Φ} {held : Option κ} {rest : List (Held Φ κ)} {last : Option ρ} {e : ε}
      (hopens : T.opens g frame held = .error e) :
      Step (.running g ((frame, held) :: rest) last)
        (.thrown (T.unwind g ((frame, held) :: rest)) e)
  | goesOn {g g₁ g₂ : Γ} {frame frame' : Φ} {held held' : Option κ} {rest : List (Held Φ κ)}
      {last : Option ρ} (hopens : T.opens g frame held = .ok (g₁, held'))
      (hacts : T.acts g₁ frame last g₂ (.goesOn frame')) :
      Step (.running g ((frame, held) :: rest) last) (.running g₂ ((frame', held') :: rest) none)
  | calls {g g₁ g₂ : Γ} {frame frame' child : Φ} {held held' : Option κ} {rest : List (Held Φ κ)}
      {last : Option ρ} (hopens : T.opens g frame held = .ok (g₁, held'))
      (hacts : T.acts g₁ frame last g₂ (.calls frame' child)) :
      Step (.running g ((frame, held) :: rest) last)
        (.running g₂ ((child, none) :: (frame', held') :: rest) none)
  | returns {g g₁ g₂ : Γ} {frame : Φ} {held held' : Option κ} {rest : List (Held Φ κ)}
      {last : Option ρ} {r : ρ} (hopens : T.opens g frame held = .ok (g₁, held'))
      (hacts : T.acts g₁ frame last g₂ (.returns r)) :
      Step (.running g ((frame, held) :: rest) last) (.running (T.release g₂ held') rest (some r))
  | throws {g g₁ g₂ : Γ} {frame : Φ} {held held' : Option κ} {rest : List (Held Φ κ)}
      {last : Option ρ} {e : ε} (hopens : T.opens g frame held = .ok (g₁, held'))
      (hacts : T.acts g₁ frame last g₂ (.throws e)) :
      Step (.running g ((frame, held) :: rest) last)
        (.thrown (T.unwind g₂ ((frame, held') :: rest)) e)

/-- A traversal that has ended: with a result, or by throwing. -/
def final (g : Γ) : Except ε ρ → Config Φ κ Γ ρ ε
  | .ok r => .running g [] (some r)
  | .error e => .thrown g e

/-- The traversal from a frame ends. -/
def Ends (g : Γ) (frame : Φ) (held : Option κ) (last : Option ρ) (out : Except ε ρ) (g' : Γ) :
    Prop :=
  Relation.ReflTransGen T.Step (.running g [(frame, held)] last) (final g' out)

/-- A call of a frame ends. -/
abbrev Runs (g : Γ) (frame : Φ) (out : Except ε ρ) (g' : Γ) : Prop :=
  T.Ends g frame none none out g'

/-- What a frame enters it can leave again, and a turn leaves the shared state alone. -/
structure Balanced : Prop where
  leave_enter : ∀ {g g' : Γ} {k : κ}, T.enter g k = .ok g' → T.leave g' k = g
  quiet : ∀ {g g' : Γ} {frame : Φ} {last : Option ρ} {turn : FrameTurn Φ ρ ε},
    T.acts g frame last g' turn → g' = g

/-- What the frames of a configuration have entered, left again. -/
def base : Config Φ κ Γ ρ ε → Γ
  | .running g stack _ => T.unwind g stack
  | .thrown g _ => g

variable {T}

theorem unwind_cons (g : Γ) (frame : Φ) (held : Option κ) (rest : List (Held Φ κ)) :
  T.unwind g ((frame, held) :: rest) = T.unwind (T.release g held) rest
  := rfl

theorem unwind_append (g : Γ) (top below : List (Held Φ κ)) :
  T.unwind g (top ++ below) = T.unwind (T.unwind g top) below
  := List.foldl_append

variable {g g' : Γ} {frame : Φ} {held : Option κ}

/-- What a frame enters in its turn it can leave. -/
theorem release_opens (h : T.Balanced) {held' : Option κ}
    (hopens : T.opens g frame held = .ok (g', held')) :
  T.release g' held' = T.release g held
  := by
  cases held with
  | some k =>
      cases hopens
      rfl
  | none =>
      cases hclaim : T.claim frame with
      | none =>
          simp only [opens, hclaim] at hopens
          cases hopens
          rfl
      | some k =>
          cases henter : T.enter g k with
          | error e => simp [opens, hclaim, henter] at hopens
          | ok g'' =>
              simp only [opens, hclaim, henter] at hopens
              cases hopens
              exact h.leave_enter henter

variable {c : Config Φ κ Γ ρ ε}

/-- A step keeps what is left when all frames have left. -/
theorem Step.base_eq (h : T.Balanced) {c' : Config Φ κ Γ ρ ε} (hstep : T.Step c c') :
  T.base c' = T.base c
  := by
  cases hstep with
  | refused hopens => rfl
  | goesOn hopens hacts | returns hopens hacts | throws hopens hacts =>
      obtain rfl := h.quiet hacts
      simp only [base, unwind_cons, release_opens h hopens]
  | calls hopens hacts =>
      obtain rfl := h.quiet hacts
      simp only [base, unwind_cons]
      rw [← release_opens h hopens]
      rfl

/-- Steps keep what is left when all frames have left. -/
theorem base_eq_of_steps (h : T.Balanced) {c' : Config Φ κ Γ ρ ε}
    (hsteps : Relation.ReflTransGen T.Step c c') :
  T.base c' = T.base c
  := by
  induction hsteps with
  | refl => rfl
  | tail _ hstep ih => rw [hstep.base_eq h, ih]

theorem base_final (g : Γ) (out : Except ε ρ) :
  T.base (final g out) = g
  := by
  cases out with
  | ok | error => rfl

variable {last : Option ρ} {out : Except ε ρ}

/-- A traversal that ends has left all that it entered. -/
theorem ends_eq (h : T.Balanced) (hends : T.Ends g frame held last out g') :
  g' = T.release g held
  := by
  have hbase := base_eq_of_steps h hends
  rwa [base_final] at hbase

/-- A call leaves the shared state as it found it, also when it throws. -/
theorem restores (h : T.Balanced) (hruns : T.Runs g frame out g') :
  g' = g
  := ends_eq h hruns

/-! ### A call is judged by itself -/

variable {top : List (Held Φ κ)}

/-- A step of the frames on top, with more frames below. -/
theorem Step.below {top' : List (Held Φ κ)} {last' : Option ρ}
    (hstep : T.Step (.running g top last) (.running g' top' last')) (below : List (Held Φ κ)) :
  T.Step (.running g (top ++ below) last) (.running g' (top' ++ below) last')
  := by
  cases hstep with
  | goesOn hopens hacts => exact .goesOn hopens hacts
  | calls hopens hacts => exact .calls hopens hacts
  | returns hopens hacts => exact .returns hopens hacts

variable {e : ε}

/-- The frames on top throw, with more frames below. -/
theorem Step.below_thrown (hstep : T.Step (.running g top last) (.thrown g' e))
    (below : List (Held Φ κ)) :
  T.Step (.running g (top ++ below) last) (.thrown (T.unwind g' below) e)
  := by
  cases hstep with
  | refused hopens =>
      rw [← unwind_append]
      exact .refused hopens
  | throws hopens hacts =>
      rw [← unwind_append]
      exact .throws hopens hacts

/-- A traversal that has ended takes no step. -/
theorem not_step_thrown :
  ¬ T.Step (.thrown g e) c
  := by
  intro hstep
  cases hstep

/-- Steps of the frames on top that pop all of them, with more frames below. -/
theorem steps_below {top' : List (Held Φ κ)} {last' : Option ρ} (hc : c = .running g' top' last')
    (hsteps : Relation.ReflTransGen T.Step (.running g top last) c) (below : List (Held Φ κ)) :
  Relation.ReflTransGen T.Step (.running g (top ++ below) last)
    (.running g' (top' ++ below) last')
  := by
  induction hsteps generalizing g' top' last' with
  | refl =>
      cases hc
      exact .refl
  | @tail d c hbefore hstep ih =>
      subst hc
      cases d with
      | running gd topd lastd => exact (ih rfl).tail (hstep.below below)
      | thrown gd e => exact absurd hstep not_step_thrown

/-- Steps of the frames on top that throw, with more frames below. -/
theorem steps_below_thrown
    (hsteps : Relation.ReflTransGen T.Step (.running g top last) (.thrown g' e))
    (below : List (Held Φ κ)) :
  Relation.ReflTransGen T.Step (.running g (top ++ below) last) (.thrown (T.unwind g' below) e)
  := by
  obtain h | ⟨c, hbefore, hstep⟩ := hsteps.cases_tail
  · cases h
  · cases c with
    | running gc topc lastc =>
        exact (steps_below rfl hbefore below).tail (hstep.below_thrown below)
    | thrown gc e => exact absurd hstep not_step_thrown

/-- The frames on top of others either are all popped, and then those below go on, or one of them
throws, and then those below are popped as well. -/
theorem steps_split {t below : List (Held Φ κ)} (htop : t ≠ [])
    (hsteps : Relation.ReflTransGen T.Step (.running g (t ++ below) last) (final g' out)) :
  (∃ g₁ r, Relation.ReflTransGen T.Step (.running g t last) (.running g₁ [] (some r)) ∧
      Relation.ReflTransGen T.Step (.running g₁ below (some r)) (final g' out)) ∨
    ∃ g₁ e, Relation.ReflTransGen T.Step (.running g t last) (.thrown g₁ e) ∧
      out = .error e ∧ g' = T.unwind g₁ below
  := by
  generalize hc : Config.running g (t ++ below) last = c at hsteps
  induction hsteps using Relation.ReflTransGen.head_induction_on generalizing g t last with
  | refl =>
      cases out with
      | ok r =>
          injection hc with _ hstack
          exact absurd (List.append_eq_nil_iff.1 hstack).1 htop
      | error e => cases hc
  | @head c d hstep hrest ih =>
      subst hc
      obtain ⟨⟨frame, held⟩, rest, rfl⟩ := List.exists_cons_of_ne_nil htop
      have thrown : ∀ {g₁ : Γ} {e : ε}, d = .thrown (T.unwind g₁ below) e →
          T.Step (.running g ((frame, held) :: rest) last) (.thrown g₁ e) →
          ∃ g₁ e, Relation.ReflTransGen T.Step (.running g ((frame, held) :: rest) last)
            (.thrown g₁ e) ∧ out = .error e ∧ g' = T.unwind g₁ below := by
        intro g₁ e hd hthrows
        subst hd
        refine ⟨g₁, e, .single hthrows, ?_⟩
        obtain heq | ⟨_, habsurd, _⟩ := hrest.cases_head
        · cases out with
          | ok r => cases heq
          | error e' =>
              cases heq
              exact ⟨rfl, rfl⟩
        · exact absurd habsurd not_step_thrown
      cases hstep with
      | refused hopens =>
          right
          apply thrown _ (.refused hopens)
          rw [← unwind_append]
          rfl
      | @goesOn _ _ g₂ _ frame' _ held' _ _ hopens hacts =>
          obtain ⟨g₁, r, htop', hbelow⟩ | ⟨g₁, e, htop', hout⟩ :=
            ih (t := (frame', held') :: rest) (List.cons_ne_nil _ _) rfl
          · exact .inl ⟨g₁, r, htop'.head (.goesOn hopens hacts), hbelow⟩
          · exact .inr ⟨g₁, e, htop'.head (.goesOn hopens hacts), hout⟩
      | @calls _ _ g₂ _ frame' child _ held' _ _ hopens hacts =>
          obtain ⟨g₁, r, htop', hbelow⟩ | ⟨g₁, e, htop', hout⟩ :=
            ih (t := (child, none) :: (frame', held') :: rest) (List.cons_ne_nil _ _) rfl
          · exact .inl ⟨g₁, r, htop'.head (.calls hopens hacts), hbelow⟩
          · exact .inr ⟨g₁, e, htop'.head (.calls hopens hacts), hout⟩
      | @returns _ _ g₂ _ _ held' _ _ r hopens hacts =>
          by_cases hnil : rest = []
          · subst hnil
            exact .inl ⟨_, r, .single (.returns hopens hacts), hrest⟩
          · obtain ⟨g₁, r', htop', hbelow⟩ | ⟨g₁, e, htop', hout⟩ := ih hnil rfl
            · exact .inl ⟨g₁, r', htop'.head (.returns hopens hacts), hbelow⟩
            · exact .inr ⟨g₁, e, htop'.head (.returns hopens hacts), hout⟩
      | @throws _ _ g₂ _ _ held' _ _ e hopens hacts =>
          right
          apply thrown _ (.throws hopens hacts)
          rw [← unwind_append]
          rfl

/-- What follows the turn of a frame. -/
def Follows (T : Traversal Φ κ Γ ρ ε) (g : Γ) (held : Option κ) (out : Except ε ρ) (g' : Γ) :
    FrameTurn Φ ρ ε → Prop
  | .goesOn frame => T.Ends g frame held none out g'
  | .calls frame child =>
      (∃ g₁ r, T.Runs g child (.ok r) g₁ ∧ T.Ends g₁ frame held (some r) out g') ∨
        ∃ g₁ e, T.Runs g child (.error e) g₁ ∧ out = .error e ∧ g' = T.release g₁ held
  | .returns r => out = .ok r ∧ g' = T.release g held
  | .throws e => out = .error e ∧ g' = T.release g held

/-- A traversal from a frame ends as the turn of the frame says, and a frame that it calls is
run by itself. -/
theorem ends_iff :
  T.Ends g frame held last out g' ↔
    (∃ e, T.opens g frame held = .error e ∧ out = .error e ∧ g' = T.release g held) ∨
      ∃ g₁ held' g₂ turn, T.opens g frame held = .ok (g₁, held') ∧
        T.acts g₁ frame last g₂ turn ∧ T.Follows g₂ held' out g' turn
  := by
  constructor
  · intro h
    obtain heq | ⟨c, hstep, hrest⟩ := h.cases_head
    · cases out with
      | ok | error => cases heq
    · have thrown : ∀ {g₁ : Γ} {e : ε}, c = .thrown g₁ e → out = .error e ∧ g' = g₁ := by
        intro g₁ e hc
        subst hc
        obtain heq | ⟨_, habsurd, _⟩ := hrest.cases_head
        · cases out with
          | ok r => cases heq
          | error e' =>
              cases heq
              exact ⟨rfl, rfl⟩
        · exact absurd habsurd not_step_thrown
      cases hstep with
      | refused hopens =>
          left
          exact ⟨_, hopens, thrown rfl⟩
      | goesOn hopens hacts =>
          right
          exact ⟨_, _, _, _, hopens, hacts, hrest⟩
      | @calls _ _ g₂ _ frame' child _ held' _ _ hopens hacts =>
          right
          refine ⟨_, _, _, _, hopens, hacts, ?_⟩
          exact steps_split (t := [(child, none)]) (List.cons_ne_nil _ _) hrest
      | returns hopens hacts =>
          right
          refine ⟨_, _, _, _, hopens, hacts, ?_⟩
          obtain heq | ⟨_, habsurd, _⟩ := hrest.cases_head
          · cases out with
            | ok r =>
                cases heq
                exact ⟨rfl, rfl⟩
            | error e => cases heq
          · cases habsurd
      | throws hopens hacts =>
          right
          exact ⟨_, _, _, _, hopens, hacts, thrown rfl⟩
  · rintro (⟨e, hopens, rfl, rfl⟩ | ⟨g₁, held', g₂, turn, hopens, hacts, hfollows⟩)
    · exact .single (.refused hopens)
    · cases turn with
      | goesOn frame' =>
          have hstep : T.Step (.running g [(frame, held)] last) (.running g₂ [(frame', held')] none) :=
            .goesOn hopens hacts
          exact hfollows.head hstep
      | calls frame' child =>
          have hstep : T.Step (.running g [(frame, held)] last)
              (.running g₂ [(child, none), (frame', held')] none) :=
            .calls hopens hacts
          obtain ⟨g₃, r, hruns, hends⟩ | ⟨g₃, e, hruns, rfl, rfl⟩ := hfollows
          · exact .head hstep ((steps_below rfl hruns [(frame', held')]).trans hends)
          · exact .head hstep (steps_below_thrown hruns [(frame', held')])
      | returns r =>
          obtain ⟨rfl, rfl⟩ := hfollows
          exact .single (.returns hopens hacts)
      | throws e =>
          obtain ⟨rfl, rfl⟩ := hfollows
          exact .single (.throws hopens hacts)

end Traversal

end CallStack
