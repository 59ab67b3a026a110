set_option autoImplicit false

namespace Akiso.Transition

variable {S L : Type}

def run (step : S → L → Option S) : S → List L → Option S
  | state, [] => some state
  | state, label :: rest => (step state label).bind fun next => run step next rest

/-- The states reached by steps that are all allowed where they are taken. -/
inductive Reaches (step : S → L → Option S) (allowed : S → L → Prop) (start : S) : S → Prop where
  | refl : Reaches step allowed start start
  | next {state next : S} {label : L} : Reaches step allowed start state →
      allowed state label → step state label = some next → Reaches step allowed start next

abbrev Reachable (step : S → L → Option S) (start : S) : S → Prop :=
  Reaches step (fun _ _ => True) start

def Always (step : S → L → Option S) (allowed : S → L → Prop) : S → List L → Prop
  | _, [] => True
  | state, label :: rest =>
    allowed state label ∧ ∀ next, step state label = some next → Always step allowed next rest

variable {step : S → L → Option S} {allowed : S → L → Prop} {start : S}

theorem always_of_refused {state : S} {label : L} {rest : List L}
    (refused : step state label = none) :
    allowed state label ↔ Always step allowed state (label :: rest) := by
  simp [Always, refused]

theorem always_of_taken {state next : S} {label : L} {rest : List L}
    (taken : step state label = some next) :
    allowed state label ∧ Always step allowed next rest ↔
      Always step allowed state (label :: rest) := by
  simp [Always, taken]

instance decidableAlways [∀ state label, Decidable (allowed state label)] :
    ∀ labels state, Decidable (Always step allowed state labels)
  | [], _ => isTrue True.intro
  | label :: rest, state =>
    match taken : step state label with
    | none => decidable_of_iff _ (always_of_refused taken)
    | some next =>
      have := decidableAlways rest next
      decidable_of_iff _ (always_of_taken taken)

theorem Reaches.trans {middle last : S} (first : Reaches step allowed start middle)
    (second : Reaches step allowed middle last) : Reaches step allowed start last := by
  induction second with
  | refl => exact first
  | next _ permitted taken ih => exact ih.next permitted taken

theorem Reaches.invariant (holds : S → Prop) {last : S} (initial : holds start)
    (preserved : ∀ state label next, holds state → allowed state label →
      step state label = some next → holds next)
    (reached : Reaches step allowed start last) : holds last := by
  induction reached with
  | refl => exact initial
  | next _ permitted taken ih => exact preserved _ _ _ ih permitted taken

/-- One allowed step after the other leads to the goal, and so does whatever may happen instead of
one of them. -/
inductive Ensures (step : S → L → Option S) (allowed : S → L → Prop) (instead : L → L → Prop)
    (goal : S → Prop) : S → Prop where
  | reached {state : S} : goal state → Ensures step allowed instead goal state
  | next {state next : S} {label : L} : allowed state label → step state label = some next →
      Ensures step allowed instead goal next →
      (∀ other after, instead label other → step state other = some after →
        Ensures step allowed instead goal after) → Ensures step allowed instead goal state

theorem Reaches.ensures {instead : L → L → Prop} {goal : S → Prop} {last : S}
    (reached : Reaches step allowed start last) (ended : goal last)
    (escapes : ∀ state label other after, Reaches step allowed start state →
      instead label other → step state other = some after → goal after) :
    Ensures step allowed instead goal start := by
  have back : ∀ {state}, Reaches step allowed start state →
      Ensures step allowed instead goal state → Ensures step allowed instead goal start := by
    intro state way ensured
    induction way with
    | refl => exact ensured
    | next way permitted taken ih =>
      refine ih (.next permitted taken ensured fun other after here there => ?_)
      exact .reached (escapes _ _ other after way here there)
  exact back reached (.reached ended)

theorem reachable_of_run {last : S} (labels : List L) (ran : run step start labels = some last) :
    Reachable step start last := by
  induction labels generalizing start with
  | nil =>
    simp only [run, Option.some.injEq] at ran
    exact ran ▸ .refl
  | cons label rest ih =>
    obtain ⟨middle, taken, ran⟩ := Option.bind_eq_some_iff.mp ran
    exact (Reaches.next .refl True.intro taken).trans (ih ran)

theorem run_cons {last : S} {label : L} {labels : List L}
    (ran : run step start (label :: labels) = some last) :
    ∃ next, step start label = some next ∧ run step next labels = some last :=
  Option.bind_eq_some_iff.mp ran

def guarded (step : S → L → Option S) (allowed : S → L → Prop)
    [∀ state label, Decidable (allowed state label)] (state : S) (label : L) : Option S :=
  if allowed state label then step state label else none

theorem reaches_of_guarded_run [∀ state label, Decidable (allowed state label)] {last : S}
    (labels : List L) (ran : run (guarded step allowed) start labels = some last) :
    Reaches step allowed start last := by
  induction labels generalizing start with
  | nil =>
    simp only [run, Option.some.injEq] at ran
    exact ran ▸ .refl
  | cons label rest ih =>
    obtain ⟨middle, taken, ran⟩ := Option.bind_eq_some_iff.mp ran
    unfold guarded at taken
    split at taken
    next permitted => exact (Reaches.next .refl permitted taken).trans (ih ran)
    next => simp at taken

-- The state a list of labels leads to, or the start if some label is refused.
def arrival (step : S → L → Option S) (allowed : S → L → Prop)
    [∀ state label, Decidable (allowed state label)] (start : S) (labels : List L) : S :=
  (run (guarded step allowed) start labels).getD start

theorem reaches_arrival [∀ state label, Decidable (allowed state label)] (labels : List L) :
    Reaches step allowed start (arrival step allowed start labels) := by
  unfold arrival
  cases ran : run (guarded step allowed) start labels with
  | none => exact .refl
  | some last => exact reaches_of_guarded_run labels ran

end Akiso.Transition
