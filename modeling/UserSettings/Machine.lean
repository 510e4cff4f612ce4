import UserSettings.Transition

/-!
# Machines that answer

A machine takes a label to its next state and an answer, or to nothing when
the label stops it. What an observer sees of it is the list of its answers.
A machine that matches another one step by step, under a reading of its
states and of its labels, cannot be told from it.
-/

namespace UserSettings.Machine

open Transition

variable {σ τ α γ β : Type*}

/-- The final state after some labels and the answers to them, in order. -/
def observe (machine : σ → α → Option (σ×β)) : σ → List α → Option (σ×List β)
  | state,[] => some (state,[])
  | state,label::rest =>
    match machine state label with
    | none => none
    | some (next,answer) => (observe machine next rest).map fun seen => (seen.1,answer::seen.2)

variable {machine : σ → α → Option (σ×β)} {state final : σ} {labels : List α}

/-- Two machines that match at every step give the same answers and end in
matching states, or both stop. -/
theorem observe_refines {abstract : τ → γ → Option (τ×β)} (read : σ → τ) (name : α → γ)
    {I : σ → Prop}
    (hp : ∀ state label next answer,I state → machine state label=some (next,answer) → I next)
    (hmatch : ∀ state label,I state →
      (machine state label).map (Prod.map read id)=abstract (read state) (name label))
    (hi : I state) : (observe machine state labels).map (Prod.map read id)=
      observe abstract (read state) (labels.map name) := by
  induction labels generalizing state with
  | nil => rfl
  | cons label rest ih =>
    have hone := hmatch state label hi
    rw [List.map_cons]
    unfold observe
    cases hs : machine state label with
    | none =>
      rw [hs] at hone
      rw [←hone]
      rfl
    | some step =>
      obtain ⟨next,answer⟩ := step
      rw [hs] at hone
      have hrest := ih (hp state label next answer hi hs)
      rw [←hone]
      dsimp only [Option.map_some,Prod.map_apply,id_eq]
      rw [←hrest,Option.map_map,Option.map_map]
      rfl

/-- Two step functions that match at every step run in parallel. -/
theorem run_refines {step : σ → α → Option σ} {abstract : τ → γ → Option τ} (read : σ → τ)
    (name : α → γ) {I : σ → Prop}
    (hp : ∀ state label next,I state → step state label=some next → I next)
    (hmatch : ∀ state label,I state →
      (step state label).map read=abstract (read state) (name label))
    (hi : I state) (labels : List α) : (run step state labels).map read=
      run abstract (read state) (labels.map name) := by
  induction labels generalizing state with
  | nil => rfl
  | cons label rest ih =>
    have hone := hmatch state label hi
    rw [List.map_cons,run,run]
    cases hs : step state label with
    | none =>
      rw [hs] at hone
      rw [←hone]
      rfl
    | some next =>
      rw [hs] at hone
      rw [←hone]
      exact ih (hp state label next hi hs)

end UserSettings.Machine
