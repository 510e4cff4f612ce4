import UserSettings.Transition

/-!
# What happened along a run

Three ways to speak about the past of a run. A mark is in force when no
later label cleared it; a flag that every step keeps in line with marks and
clears shows exactly that. The outputs of a run are those of its steps, one
after another. A step that is itself a run of smaller steps puts out its
parts, and the outputs of the whole run are then a run of the small steps.
-/

namespace UserSettings.Transition

variable {σ α β : Type*} {step : σ → α → Option σ}

/-- A run over two lists is a run over the first and then over the second. -/
theorem run_append {state : σ} (first second : List α) :
    run step state (first++second)=
      (run step state first).bind fun middle => run step middle second := by
  induction first generalizing state with
  | nil => rfl
  | cons label first ih =>
    rw [List.cons_append,run,run]
    cases step state label with
    | none => rfl
    | some next => exact ih

/-- A label of the run was marked and none after it cleared. -/
def Since (step : σ → α → Option σ) (mark clear : σ → α → Prop) (state : σ)
    (labels : List α) : Prop :=
  ∃ first label rest middle next,labels=first++label::rest ∧
    run step state first=some middle ∧ mark middle label ∧ step middle label=some next ∧
    Meets step (fun s l => ¬clear s l) next rest

section Since

variable {mark clear : σ → α → Prop} {state next : σ} {label : α} {rest : List α}

/-- Nothing happened along the empty run. -/
theorem not_since_nil : ¬Since step mark clear state [] := by
  rintro ⟨first,label,rest,_,_,hsplit,_⟩
  exact List.append_ne_nil_of_right_ne_nil first (List.cons_ne_nil label rest) hsplit.symm

/-- The label that was marked is the first one or a later one. -/
theorem since_cons (hs : step state label=some next) :
    Since step mark clear state (label::rest) ↔
      (mark state label ∧ Meets step (fun s l => ¬clear s l) next rest) ∨
        Since step mark clear next rest := by
  constructor
  · rintro ⟨first,marked,later,middle,after,hsplit,hrun,hmark,hstep,hmeets⟩
    cases first with
    | nil =>
      cases hsplit
      cases Option.some.inj hrun
      cases hs.symm.trans hstep
      exact .inl ⟨hmark,hmeets⟩
    | cons head tail =>
      cases hsplit
      obtain ⟨other,ho,hrest⟩ := run_cons.mp hrun
      cases hs.symm.trans ho
      exact .inr ⟨tail,marked,later,middle,after,rfl,hrest,hmark,hstep,hmeets⟩
  · rintro (⟨hmark,hmeets⟩|⟨first,marked,later,middle,after,hsplit,hrun,hmark,hstep,hmeets⟩)
    · exact ⟨[],label,rest,state,next,rfl,rfl,hmark,hs,hmeets⟩
    · refine ⟨label::first,marked,later,middle,after,?_,?_,hmark,hstep,hmeets⟩
      · rw [hsplit,List.cons_append]
      · exact run_cons.mpr ⟨next,hs,hrun⟩

/-- A flag that each step sets on a mark and keeps unless it clears shows in
the end whether a mark is in force, or the flag of the start still is. -/
theorem flag_iff_since {I : σ → Prop} (flag : σ → Prop)
    (hp : ∀ state label next,I state → step state label=some next → I next)
    (hflag : ∀ state label next,I state → step state label=some next →
      (flag next ↔ mark state label ∨ (flag state ∧ ¬clear state label)))
    {final : σ} {labels : List α} (hi : I state) (hr : run step state labels=some final) :
    flag final ↔ Since step mark clear state labels ∨
      (flag state ∧ Meets step (fun s l => ¬clear s l) state labels) := by
  induction labels generalizing state with
  | nil =>
    cases Option.some.inj hr
    exact ⟨fun h => .inr ⟨h,trivial⟩,fun h => h.elim (fun k => absurd k not_since_nil) And.left⟩
  | cons label rest ih =>
    obtain ⟨next,hs,hrun⟩ := run_cons.mp hr
    have hstep := hflag state label next hi hs
    have hmeets : Meets step (fun s l => ¬clear s l) state (label::rest) ↔
        ¬clear state label ∧ Meets step (fun s l => ¬clear s l) next rest := by
      constructor
      · exact fun h => ⟨h.1,h.2 next hs⟩
      · rintro ⟨hc,hrest⟩
        refine ⟨hc,fun other ho => ?_⟩
        cases hs.symm.trans ho
        exact hrest
    rw [ih (hp state label next hi hs) hrun,since_cons hs,hmeets,hstep,or_and_right,and_assoc,
      ←or_assoc]
    exact or_congr_left Or.comm

end Since

/-- What the labels of a run put out, one after another. -/
def outputs (step : σ → α → Option σ) (out : σ → α → List β) : σ → List α → List β
  | _,[] => []
  | state,label::rest =>
    out state label++
      match step state label with
      | none => []
      | some next => outputs step out next rest

section Outputs

variable {out : σ → α → List β} {state final : σ} {labels : List α}

/-- The outputs of a run that takes its first step. -/
theorem outputs_cons {label : α} {rest : List α} {next : σ} (hs : step state label=some next) :
    outputs step out state (label::rest)=out state label++outputs step out next rest := by
  rw [outputs,hs]

/-- What a run puts out, one of its labels puts out. -/
theorem mem_outputs {b : β} (h : b∈outputs step out state labels) :
    ∃ middle,∃ label∈labels,b∈out middle label := by
  induction labels generalizing state with
  | nil => cases h
  | cons label rest ih =>
    rw [outputs] at h
    rcases List.mem_append.mp h with hfirst|hrest
    · exact ⟨state,label,List.mem_cons_self,hfirst⟩
    · cases hs : step state label with
      | none =>
        rw [hs] at hrest
        cases hrest
      | some next =>
        rw [hs] at hrest
        obtain ⟨middle,later,hmem,hb⟩ := ih hrest
        exact ⟨middle,later,List.mem_cons_of_mem label hmem,hb⟩

variable {L : α → Prop} {I : σ → Prop}

/-- A reading that each step of some labels brings up to date by its outputs is
brought up to date by the outputs of a run of such labels. -/
theorem foldl_outputs {γ : Type*} (read : σ → γ) (update : γ → β → γ)
    (hp : ∀ state label next,L label → I state → step state label=some next → I next)
    (hread : ∀ state label next,L label → I state → step state label=some next →
      (out state label).foldl update (read state)=read next)
    (hl : ∀ label∈labels,L label) (hi : I state) (hr : run step state labels=some final) :
    (outputs step out state labels).foldl update (read state)=read final := by
  induction labels generalizing state with
  | nil =>
    cases Option.some.inj hr
    rfl
  | cons label rest ih =>
    obtain ⟨next,hs,hrun⟩ := run_cons.mp hr
    have hlabel := hl label List.mem_cons_self
    rw [outputs_cons hs,List.foldl_append,hread state label next hlabel hi hs]
    exact ih (fun l hmem => hl l (List.mem_cons_of_mem label hmem))
      (hp state label next hlabel hi hs) hrun

/-- A log to which each step of some labels appends its outputs has those of a
run of such labels appended. -/
theorem log_outputs {log : σ → List β}
    (hp : ∀ state label next,L label → I state → step state label=some next → I next)
    (hlog : ∀ state label next,L label → I state → step state label=some next →
      log next=log state++out state label)
    (hl : ∀ label∈labels,L label) (hi : I state) (hr : run step state labels=some final) :
    log final=log state++outputs step out state labels := by
  have happend : ∀ (bs : List β) (old : List β),bs.foldl (fun all b => all++[b]) old=old++bs := by
    intro bs
    induction bs with
    | nil => exact fun old => (List.append_nil old).symm
    | cons b rest ih => exact fun old => (ih _).trans (List.append_assoc _ _ _)
  have hfold := foldl_outputs log (fun all b => all++[b]) hp
    (fun s l n hlabel hstate hs =>
      (happend _ _).trans (hlog s l n hlabel hstate hs).symm) hl hi hr
  exact hfold.symm.trans (happend _ _)

/-- When the parts that each step puts out are a run of small steps to the same
state, those of the whole run are. -/
theorem run_outputs {small : σ → β → Option σ}
    (hp : ∀ state label next,I state → step state label=some next → I next)
    (hparts : ∀ state label next,I state → step state label=some next →
      run small state (out state label)=some next)
    (hi : I state) (hr : run step state labels=some final) :
    run small state (outputs step out state labels)=some final := by
  induction labels generalizing state with
  | nil => exact hr
  | cons label rest ih =>
    obtain ⟨next,hs,hrun⟩ := run_cons.mp hr
    rw [outputs_cons hs,run_append,hparts state label next hi hs]
    exact ih (hp state label next hi hs) hrun

end Outputs

end UserSettings.Transition
