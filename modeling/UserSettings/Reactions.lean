import UserSettings.Setters

/-!
# Calls made by callbacks and operations on all settings

A callback is a list of calls, each with the lists of calls that its own
notifications cause. By induction over this tree a callback does nothing
but what the setters can do, so the public functions are sequences of
effects too, whatever their callbacks do.
-/

namespace UserSettings.Reactions

open Bytes Settings Storage Store Effects Setters

mutual

/-- A condition on every call of a tree. -/
def Each (P : Target → Pointer → ℕ → Prop) : Reaction → Prop
  | .set target pointer len onGlobal onOwn =>
    P target pointer len ∧ EachAll P onGlobal ∧ EachAll P onOwn

/-- A condition on every call of a list of trees. -/
def EachAll (P : Target → Pointer → ℕ → Prop) : List Reaction → Prop
  | [] => True
  | reaction::rest => Each P reaction ∧ EachAll P rest

end

/-- Every value may be written and stored. -/
def anyValue : Allowance := ⟨fun _ _ _ => True,fun _ _ _ => True⟩

/-- Every value may be written, and only what was checked may be stored. -/
def checkedValue : Allowance := ⟨fun _ _ _ => True,fun _ _ _ => False⟩

/-- The calls with a property may write what they write, and store what their
pointer points to in any state. -/
structure Permits (P : Target → Pointer → ℕ → Prop) (allow : Allowance) : Prop where
  /-- The value that is written. -/
  value : ∀ {w target pointer len s},P target pointer len → World.find w target=some s →
    allow.value s (pointer w) len
  /-- The bytes that are stored. -/
  saved : ∀ {target pointer len},P target pointer len → ∀ w s,allow.saved s (pointer w) len

variable {env : Env} {allow : Allowance} {P : Target → Pointer → ℕ → Prop}

mutual

/-- One call of a callback is a sequence of effects. -/
theorem exec_effects (hP : Permits P allow) :
    ∀ (reaction : Reaction) (w : World),Each P reaction →
      EffectSeq env allow w (Reaction.exec env reaction w)
  | .set target pointer len onGlobal onOwn,w,h => by
    obtain ⟨hc,hg,ho⟩ := h
    unfold Reaction.exec
    cases hf : w.find target with
    | none => exact .refl
    | some s =>
      have hcb : Within env allow
          ⟨Reaction.execAll env onGlobal,Reaction.execAll env onOwn⟩ :=
        ⟨fun u => execAll_effects hP onGlobal u hg,fun u => execAll_effects hP onOwn u ho⟩
      exact userSettingsSetFrom_effects hcb (getByKey_of_find hf) (fun _ _ => hP.value hc hf)
        (fun _ => .inr (hP.saved hc _))

/-- All calls of a callback are a sequence of effects. -/
theorem execAll_effects (hP : Permits P allow) :
    ∀ (reactions : List Reaction) (w : World),EachAll P reactions →
      EffectSeq env allow w (Reaction.execAll env reactions w)
  | [],_,_ => .refl
  | reaction::rest,w,h => by
    unfold Reaction.execAll
    exact (exec_effects hP reaction w h.1).trans (execAll_effects hP rest _ h.2)

end

mutual

/-- A condition that holds of all calls holds of all calls of a tree. -/
theorem each_of_forall (h : ∀ target pointer len,P target pointer len) :
    ∀ reaction : Reaction,Each P reaction
  | .set target pointer len onGlobal onOwn =>
    ⟨h target pointer len,eachAll_of_forall h onGlobal,eachAll_of_forall h onOwn⟩

/-- A condition that holds of all calls holds of all calls of a list of trees. -/
theorem eachAll_of_forall (h : ∀ target pointer len,P target pointer len) :
    ∀ reactions : List Reaction,EachAll P reactions
  | [] => trivial
  | reaction::rest => ⟨each_of_forall h reaction,eachAll_of_forall h rest⟩

end

/-- The callbacks of the application stay within what its calls may write. -/
theorem callbacks_within (hP : Permits P allow) (h : ∀ n,EachAll P (env.react n)) :
    Within env allow env.callbacks :=
  ⟨fun w => execAll_effects hP _ w (h _),fun w => execAll_effects hP _ w (h _)⟩

/-- Whatever calls a callback makes, it does nothing but what the setters can do. -/
theorem execAll_any (reactions : List Reaction) (u : World) :
    EffectSeq env anyValue u (Reaction.execAll env reactions u) :=
  execAll_effects (P:=fun _ _ _ => True) ⟨fun _ _ => trivial,fun _ _ _ => trivial⟩ reactions u
    (eachAll_of_forall (fun _ _ _ => trivial) reactions)

/-- When every value may be written no condition on the callbacks is left. -/
theorem callbacks_within_any : Within env anyValue env.callbacks :=
  ⟨fun w => execAll_any _ w,fun w => execAll_any _ w⟩

variable {w : World} {s : UserSetting}

/-- Restoring one setting. -/
theorem settingsRestore_within (hcb : Within env allow env.callbacks)
    (hany : ∀ s data len,allow.value s data len) (hs : w.getByKey s.key=some s) :
    EffectSeq env allow w (prvSettingsRestore env env.callbacks w s) := by
  unfold prvSettingsRestore
  split
  · exact userSettingsSet_effects hcb hs (fun _ _ => hany _ _ _)
  · exact .refl

/-- A relation between states that each visit of a record has, a visit of all
records has too. The list of records to visit is fixed at the start; each is
found as it then is. -/
theorem forEachSetting_rel {R : World → World → Prop} (hrefl : ∀ u,R u u)
    (htrans : ∀ {u v x},R u v → R v x → R u x)
    (hregs : ∀ {u v},R u v → registrations v=registrations u) {f : World → UserSetting → World}
    (hf : ∀ u t,u.getByKey t.key=some t → R u (f u t)) (w : World) : R w (forEachSetting f w) := by
  have hfold : ∀ (items : List UserSetting) (u : World),R w u →
      (∀ t∈items,w.getByKey t.key=some t) →
      R w (items.foldl (fun u t => f u (u.deref t)) u) := by
    intro items
    induction items with
    | nil =>
      intro u hu _
      exact hu
    | cons t rest ih =>
      intro u hu hitems
      have ht := hitems t List.mem_cons_self
      obtain ⟨now,hnow,hr⟩ := getByKey_of_registrations (hregs hu) ht
      have hk := key_of_registration hr
      rw [List.foldl_cons,deref_eq hnow]
      refine ih _ (htrans hu (hf u now (by rw [hk,hnow]))) ?_
      exact fun x hx => hitems x (List.mem_cons_of_mem t hx)
  exact hfold w.list.items w (hrefl w) (fun t ht => getByKey_of_mem ht)

/-- A visit of all records is a sequence of effects when each visit is. -/
theorem forEachSetting_effects {f : World → UserSetting → World}
    (hf : ∀ u t,u.getByKey t.key=some t → EffectSeq env allow u (f u t)) (w : World) :
    EffectSeq env allow w (forEachSetting f w) :=
  forEachSetting_rel (fun _ => .refl) (fun h k => h.trans k) (fun h => h.sameSetup.regs) hf w

/-- A successful opening of a public function found the setting. -/
theorem withSetting_ok {β : Type} {target : Target} {f : UserSetting → β} {b : β}
    (h : withSetting w target f=.ok b) :
    w.isLoaded=true ∧ ∃ s,w.find target=some s ∧ b=f s := by
  unfold withSetting at h
  split at h
  · rename_i hl
    split at h
    · cases h
    · rename_i s hf
      cases h
      exact ⟨hl,s,hf,rfl⟩
  · cases h

/-- The opening succeeds for a setting of a loaded store. -/
theorem withSetting_eq {β : Type} {target : Target} (hl : w.isLoaded=true)
    (hf : w.find target=some s) (f : UserSetting → β) : withSetting w target f=.ok (f s) := by
  unfold withSetting
  rw [if_pos hl,hf]

/-- What holds after every success of a call on a setting of a loaded store. -/
theorem withSetting_success_iff {target : Target} (hl : w.isLoaded=true)
    (hf : w.find target=some s) {f : UserSetting → World×ℤ} {P : World → Prop} :
    (∀ next,withSetting w target f=.ok (next,0) → P next) ↔ ((f s).2=0 → P (f s).1) := by
  rw [withSetting_eq hl hf]
  constructor
  · intro h hrc
    exact h (f s).1 (by rw [←hrc])
  · intro h next hok
    have hpair := Except.ok.inj hok
    rw [hpair] at h
    exact h rfl

end UserSettings.Reactions
