import Mathlib.Data.List.Forall2
import Mathlib.Data.Set.Basic

/-!
# Runs of partial step functions

A step function gives the next state for a label, or nothing when the step
stops the machine. Runs execute a list of labels. A condition is met by a
run when it holds of every label in the state before it; invariants and
equivalent conditions are carried along runs by one induction each.
-/

namespace UserSettings.Transition

variable {σ α : Type*}

/-- Execute the labels in order; a step without result ends the run. -/
def run (step : σ → α → Option σ) : σ → List α → Option σ
  | state,[] => some state
  | state,label::rest =>
    match step state label with
    | none => none
    | some next => run step next rest

/-- The condition holds of every label of the run in the state before it. -/
def Meets (step : σ → α → Option σ) (C : σ → α → Prop) : σ → List α → Prop
  | _,[] => True
  | state,label::rest =>
    C state label ∧ ∀ next,step state label=some next → Meets step C next rest

/-- One step that meets the condition keeps the invariant. -/
def Preserves (step : σ → α → Option σ) (C : σ → α → Prop) (I : σ → Prop) : Prop :=
  ∀ state label next,I state → C state label → step state label=some next → I next

variable {step : σ → α → Option σ} {C D : σ → α → Prop} {I : σ → Prop}

/-- The empty run stays where it is. -/
@[simp] theorem run_nil (state : σ) : run step state []=some state := rfl

/-- A nonempty run takes its first step and runs the rest from there. -/
theorem run_cons {state final : σ} {label : α} {rest : List α} :
    run step state (label::rest)=some final ↔
      ∃ next,step state label=some next ∧ run step next rest=some final := by
  cases hs : step state label with
  | none => simp [run,hs]
  | some next => simp [run,hs]

/-- Whether a run meets a condition can be decided by running it. -/
instance decidableMeets [∀ state label,Decidable (C state label)] :
    ∀ state labels,Decidable (Meets step C state labels)
  | _,[] => .isTrue trivial
  | state,label::rest =>
    match hs : step state label with
    | none => decidable_of_iff (C state label)
      ⟨fun h => ⟨h,fun _ hn => absurd (hs.symm.trans hn) nofun⟩,fun h => h.1⟩
    | some next =>
      have : Decidable (Meets step C next rest) := decidableMeets next rest
      decidable_of_iff (C state label ∧ Meets step C next rest)
        ⟨fun h => ⟨h.1,fun _ hn => Option.some.inj (hs.symm.trans hn) ▸ h.2⟩,
          fun h => ⟨h.1,h.2 next hs⟩⟩

/-- A run over two lists meets a condition when both parts do. -/
theorem meets_append {state : σ} {first second : List α} :
    Meets step C state (first++second) ↔
      Meets step C state first ∧
        ∀ middle,run step state first=some middle → Meets step C middle second := by
  induction first generalizing state with
  | nil => simp [Meets]
  | cons label first ih =>
    simp only [List.cons_append,Meets]
    constructor
    · rintro ⟨hc,hrest⟩
      refine ⟨⟨hc,fun next hs => (ih.mp (hrest next hs)).1⟩,?_⟩
      intro middle hm
      obtain ⟨next,hs,hr⟩ := run_cons.mp hm
      exact (ih.mp (hrest next hs)).2 middle hr
    · rintro ⟨⟨hc,hfirst⟩,hsecond⟩
      refine ⟨hc,fun next hs => ih.mpr ⟨hfirst next hs,?_⟩⟩
      intro middle hm
      exact hsecond middle (run_cons.mpr ⟨next,hs,hm⟩)

/-- An invariant of the steps that meet the condition holds in the final
state of every run that meets it. -/
theorem run_invariant (hp : Preserves step C I) {state final : σ} {labels : List α}
    (hi : I state) (hm : Meets step C state labels)
    (hr : run step state labels=some final) : I final := by
  induction labels generalizing state with
  | nil => exact Option.some.inj hr ▸ hi
  | cons label rest ih =>
    obtain ⟨next,hs,hr⟩ := run_cons.mp hr
    exact ih (hp state label next hi hm.1 hs) (hm.2 next hs) hr

/-- When a step is possible wherever the invariant and the condition hold, a
run that meets the condition has an end. -/
theorem run_of_enabled (hp : Preserves step C I)
    (henabled : ∀ state label,I state → C state label → ∃ next,step state label=some next)
    {state : σ} {labels : List α} (hi : I state) (hm : Meets step C state labels) :
    ∃ final,run step state labels=some final := by
  induction labels generalizing state with
  | nil => exact ⟨state,rfl⟩
  | cons label rest ih =>
    obtain ⟨next,hs⟩ := henabled state label hi hm.1
    obtain ⟨final,hr⟩ := ih (hp state label next hi hm.1 hs) (hm.2 next hs)
    exact ⟨final,run_cons.mpr ⟨next,hs,hr⟩⟩

/-- A condition that every label meets in every state is met by every run. -/
theorem meets_of_forall (h : ∀ state label,C state label) (state : σ) (labels : List α) :
    Meets step C state labels := by
  induction labels generalizing state with
  | nil => trivial
  | cons label rest ih => exact ⟨h state label,fun next _ => ih next⟩

/-- An invariant of every step holds in the final state of every run. -/
theorem run_invariant_always
    (hp : ∀ state label next,I state → step state label=some next → I next)
    {state final : σ} {labels : List α} (hi : I state)
    (hr : run step state labels=some final) : I final :=
  run_invariant (C:=fun _ _ => True) (fun state label next h _ hs => hp state label next h hs)
    hi (meets_of_forall (fun _ _ => trivial) state labels) hr

/-- Two conditions that agree under an invariant are met by the same runs.
The invariant is only needed as long as the first of them is met. -/
theorem meets_iff (hp : Preserves step C I)
    (hcd : ∀ state label,I state → (C state label ↔ D state label))
    {state : σ} (hi : I state) (labels : List α) :
    Meets step C state labels ↔ Meets step D state labels := by
  induction labels generalizing state with
  | nil => exact Iff.rfl
  | cons label rest ih =>
    constructor
    · rintro ⟨hc,hrest⟩
      exact ⟨(hcd state label hi).mp hc,fun next hs =>
        (ih (hp state label next hi hc hs)).mp (hrest next hs)⟩
    · rintro ⟨hd,hrest⟩
      have hc := (hcd state label hi).mpr hd
      exact ⟨hc,fun next hs => (ih (hp state label next hi hc hs)).mpr (hrest next hs)⟩

/-- A condition that follows from a met one under an invariant is met too. -/
theorem meets_imp (hp : Preserves step C I)
    (hcd : ∀ state label,I state → C state label → D state label) {state : σ} (hi : I state)
    {labels : List α} (hm : Meets step C state labels) : Meets step D state labels := by
  induction labels generalizing state with
  | nil => trivial
  | cons label rest ih =>
    exact ⟨hcd state label hi hm.1,
      fun next hs => ih (hp state label next hi hm.1 hs) (hm.2 next hs)⟩

/-- A condition on the labels alone can be added to one that is met. -/
theorem meets_and {L : α → Prop} {state : σ} {labels : List α} (hl : ∀ label∈labels,L label)
    (hm : Meets step C state labels) :
    Meets step (fun state label => L label ∧ C state label) state labels := by
  induction labels generalizing state with
  | nil => trivial
  | cons label rest ih =>
    exact ⟨⟨hl label List.mem_cons_self,hm.1⟩,
      fun next hs => ih (fun l hmem => hl l (List.mem_cons_of_mem label hmem)) (hm.2 next hs)⟩

/-- A run that carries something along meets a condition on the states when the
run itself does. -/
theorem meets_fst {β : Type*} {carry : σ×β → α → β} {state : σ×β} {labels : List α}
    (hm : Meets (fun s l => (step s.1 l).map fun next => (next,carry s l)) (fun s l => C s.1 l)
      state labels) : Meets step C state.1 labels := by
  induction labels generalizing state with
  | nil => trivial
  | cons label rest ih =>
    refine ⟨hm.1,fun next hs => ?_⟩
    have hrest : Meets step C (next,carry state label).1 rest := by
      refine ih (hm.2 _ ?_)
      dsimp only
      rw [hs]
      rfl
    exact hrest

/-- The property holds in every state that a run passes through. -/
def Always (step : σ → α → Option σ) (Q : σ → Prop) (state : σ) (labels : List α) : Prop :=
  ∀ first final,first<+:labels → run step state first=some final → Q final

/-- What follows from an invariant of the steps that meet the condition holds in
every state of a run that meets it. -/
theorem always_of_invariant {Q : σ → Prop} (hp : Preserves step C I)
    (hq : ∀ state,I state → Q state) {state : σ} {labels : List α} (hi : I state)
    (hm : Meets step C state labels) : Always step Q state labels := by
  rintro first final ⟨rest,rfl⟩ hr
  exact hq final (run_invariant hp hi (meets_append.mp hm).1 hr)

/-- A property holds along a run when it holds at the start and after each step. -/
theorem always_iff {Q : σ → Prop} {state : σ} {labels : List α} :
    Always step Q state labels ↔
      Q state ∧ Meets step (fun s l => ∀ next,step s l=some next → Q next) state labels := by
  induction labels generalizing state with
  | nil =>
    constructor
    · exact fun h => ⟨h [] state List.nil_prefix rfl,trivial⟩
    · intro h first final hp hr
      have hnil := List.prefix_nil.mp hp
      subst hnil
      exact Option.some.inj hr ▸ h.1
  | cons label rest ih =>
    constructor
    · intro h
      have hnext : ∀ next,step state label=some next → Always step Q next rest := by
        intro next hs first final hp hr
        exact h (label::first) final (List.prefix_cons_inj label |>.mpr hp)
          (run_cons.mpr ⟨next,hs,hr⟩)
      exact ⟨h [] state List.nil_prefix rfl,
        fun next hs => (ih.mp (hnext next hs)).1,fun next hs => (ih.mp (hnext next hs)).2⟩
    · intro h first final hp hr
      cases first with
      | nil => exact Option.some.inj hr ▸ h.1
      | cons head tail =>
        obtain ⟨hhead,htail⟩ := List.cons_prefix_cons.mp hp
        subst hhead
        obtain ⟨next,hs,hr⟩ := run_cons.mp hr
        exact ih.mpr ⟨h.2.1 next hs,h.2.2 next hs⟩ tail final htail hr

/-- A computation in two parts succeeds when both parts do. -/
theorem bind_eq_ok {ε β γ : Type} {x : Except ε β} {f : β → Except ε γ} {c : γ} :
    (x >>= f)=.ok c ↔ ∃ b,x=.ok b ∧ f b=.ok c := by
  cases x with
  | error e =>
    constructor
    · intro h
      cases h
    · rintro ⟨b,hb,_⟩
      cases hb
  | ok b =>
    constructor
    · exact fun h => ⟨b,rfl,h⟩
    · rintro ⟨b',hb,h⟩
      cases hb
      exact h

/-- A converted computation succeeds when the computation does. -/
theorem map_eq_ok {ε β γ : Type} {x : Except ε β} {f : β → γ} {c : γ} :
    x.map f=.ok c ↔ ∃ b,x=.ok b ∧ f b=c := by
  cases x with
  | error e =>
    constructor
    · intro h
      cases h
    · rintro ⟨b,hb,_⟩
      cases hb
  | ok b =>
    constructor
    · exact fun h => ⟨b,rfl,Except.ok.inj h⟩
    · rintro ⟨b',hb,h⟩
      cases hb
      exact congrArg Except.ok h

/-- Computations over a list succeed when each of them does. -/
theorem mapM_eq_ok {ε β γ : Type} {f : β → Except ε γ} {bs : List β} {cs : List γ} :
    bs.mapM f=.ok cs ↔ List.Forall₂ (fun b c => f b=.ok c) bs cs := by
  induction bs generalizing cs with
  | nil =>
    rw [List.mapM_nil,List.forall₂_nil_left_iff]
    constructor
    · intro h
      exact (Except.ok.inj h).symm
    · rintro rfl
      rfl
  | cons b rest ih =>
    rw [List.mapM_cons,bind_eq_ok,List.forall₂_cons_left_iff]
    constructor
    · rintro ⟨c,hc,h⟩
      obtain ⟨later,hlater,h⟩ := bind_eq_ok.mp h
      exact ⟨c,later,hc,ih.mp hlater,(Except.ok.inj h).symm⟩
    · rintro ⟨c,later,hc,hlater,rfl⟩
      exact ⟨c,hc,bind_eq_ok.mpr ⟨later,ih.mpr hlater,rfl⟩⟩

/-- A result without its error is there exactly after success. -/
theorem toOption_eq_some {ε β : Type} {x : Except ε β} {b : β} : x.toOption=some b ↔ x=.ok b := by
  cases x with
  | error e =>
    constructor
    · intro h
      cases h
    · intro h
      cases h
  | ok b' =>
    constructor
    · intro h
      cases h
      rfl
    · intro h
      cases h
      rfl

end UserSettings.Transition
