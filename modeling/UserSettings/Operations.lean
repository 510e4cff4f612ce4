import UserSettings.Outcomes
import UserSettings.Transition

/-!
# Operations on a loaded store

The calls an application makes after loading, as labels of runs. An operation
on all settings acts on each of them like its own visit, because the visits
of different settings do not meet.
-/

namespace UserSettings.Operations

open Bytes Settings Storage Store Effects Setters Reactions Load Records Cells Outcomes

/-- A call that may change settings. -/
inductive StoreOp where
  /-- Set a value. -/
  | set (target : Target) (data : Mem) (len : ℕ)
  /-- Set a default value. -/
  | setDefault (target : Target) (data : Mem) (len : ℕ)
  /-- Restore all settings. -/
  | restoreDefaults
  /-- Restore one setting. -/
  | restoreDefault (target : Target)
  /-- Mark a setting as changed. -/
  | setChanged (target : Target)
  /-- Clear the changed flag of one setting. -/
  | clearChangedOne (target : Target)
  /-- Clear all changed flags. -/
  | clearChanged

/-- The result of a call; functions without a result give zero. -/
def StoreOp.exec (env : Env) (w : World) : StoreOp → Except Fault (World×ℤ)
  | .set target data len => userSettingsSet env w target data len
  | .setDefault target data len => userSettingsSetDefault env w target data len
  | .restoreDefaults => (userSettingsRestoreDefaults env w).map fun next => (next,0)
  | .restoreDefault target => userSettingsRestoreDefault env w target
  | .setChanged target => (userSettingsSetChanged env w target).map fun next => (next,0)
  | .clearChangedOne target => (userSettingsClearChangedOne env w target).map fun next => (next,0)
  | .clearChanged => (userSettingsClearChanged env w).map fun next => (next,0)

/-- A step of a run is a call that does not stop at an assertion. -/
def step (env : Env) (w : World) (op : StoreOp) : Option World :=
  (op.exec env w).toOption.map Prod.fst

/-- What is done with one record for its part of an operation. -/
def visit (env : Env) : StoreOp → World → UserSetting → World
  | .set _ data len,w,s => (prvUserSettingsSet env env.callbacks w s data len).1
  | .setDefault _ data len,w,s => (prvUserSettingsSetDefault env env.callbacks w s data len).1
  | .restoreDefaults,w,s | .restoreDefault _,w,s => prvSettingsRestore env env.callbacks w s
  | .setChanged _,w,s => (prvSetChangedRecentlyFlag env env.callbacks w s true).1
  | .clearChangedOne _,w,s | .clearChanged,w,s =>
    (prvSetChangedRecentlyFlag env env.callbacks w s false).1

/-- The setting an operation names; the others go over all settings. -/
def target? : StoreOp → Option Target
  | .set target _ _ | .setDefault target _ _ | .restoreDefault target | .setChanged target
  | .clearChangedOne target => some target
  | .restoreDefaults | .clearChanged => none

variable {env : Env} {w next : World} {s : UserSetting}

/-- A call on one setting makes a step if the store is loaded and the setting
exists. -/
theorem withSetting_map (w : World) (target : Target) (f : UserSetting → World×ℤ) :
    (withSetting w target f).toOption.map Prod.fst=
      if w.isLoaded then (w.find target).map fun s => (f s).1 else none := by
  unfold withSetting
  split
  · cases w.find target with
    | none => rfl
    | some s => rfl
  · rfl

/-- The opening of a public function without a result. -/
theorem withSetting_result {f : UserSetting → World} {target : Target} :
    (withSetting w target f).map (fun next => (next,(0 : ℤ)))=
      withSetting w target (fun s => (f s,0)) := by
  unfold withSetting
  split
  · split <;> rfl
  · rfl

/-- Every step is the visit of the named record or of all of them. -/
theorem step_eq (env : Env) (w : World) (op : StoreOp) : step env w op=
    if w.isLoaded then
      match target? op with
      | some target => (w.find target).map (visit env op w)
      | none => some (forEachSetting (visit env op) w)
    else none := by
  unfold step
  cases op with
  | set target data len => exact withSetting_map w target _
  | setDefault target data len => exact withSetting_map w target _
  | restoreDefaults =>
    unfold StoreOp.exec userSettingsRestoreDefaults
    dsimp only
    split <;> rfl
  | restoreDefault target => exact withSetting_map w target _
  | setChanged target =>
    unfold StoreOp.exec userSettingsSetChanged
    dsimp only
    rw [withSetting_result]
    exact withSetting_map w target _
  | clearChangedOne target =>
    unfold StoreOp.exec userSettingsClearChangedOne
    dsimp only
    rw [withSetting_result]
    exact withSetting_map w target _
  | clearChanged =>
    unfold StoreOp.exec userSettingsClearChanged
    dsimp only
    split <;> rfl

/-- What a step did. -/
theorem step_cases {op : StoreOp} (h : step env w op=some next) :
    (∃ target s,target? op=some target ∧ w.find target=some s ∧ next=visit env op w s) ∨
      (target? op=none ∧ next=forEachSetting (visit env op) w) := by
  rw [step_eq] at h
  split at h
  · cases ht : target? op with
    | some target =>
      rw [ht] at h
      obtain ⟨s,hs,hnext⟩ := Option.map_eq_some_iff.mp h
      exact .inl ⟨target,s,rfl,hs,hnext.symm⟩
    | none =>
      rw [ht] at h
      exact .inr ⟨rfl,(Option.some.inj h).symm⟩
  · cases h

/-- A call on a loaded store only stops when it names no setting. -/
theorem step_none {op : StoreOp} (hl : w.isLoaded=true) (h : step env w op=none) :
    ∃ target,target? op=some target ∧ w.find target=none := by
  rw [step_eq,if_pos hl] at h
  cases ht : target? op with
  | some target =>
    rw [ht] at h
    exact ⟨target,rfl,Option.map_eq_none_iff.mp h⟩
  | none =>
    rw [ht] at h
    cases h

/-- A visit is a sequence of effects that its callbacks stay within. -/
theorem visit_within {allow : Allowance} (hcb : Within env allow env.callbacks)
    (hany : ∀ s data len,allow.value s data len) (op : StoreOp) (hs : w.getByKey s.key=some s) :
    EffectSeq env allow w (visit env op w s) := by
  cases op with
  | set => exact userSettingsSet_effects hcb hs (fun _ _ => hany _ _ _)
  | setDefault => exact userSettingsSetDefault_effects hs
  | restoreDefaults => exact settingsRestore_within hcb hany hs
  | restoreDefault => exact settingsRestore_within hcb hany hs
  | setChanged => exact setChangedRecentlyFlag_effects hs true
  | clearChangedOne => exact setChangedRecentlyFlag_effects hs false
  | clearChanged => exact setChangedRecentlyFlag_effects hs false

/-- A visit is a sequence of effects, whatever its callbacks do. -/
theorem visit_effects (op : StoreOp) (hs : w.getByKey s.key=some s) :
    EffectSeq env anyValue w (visit env op w s) :=
  visit_within callbacks_within_any (fun _ _ _ => trivial) op hs

/-- Every step is a sequence of effects that its callbacks stay within. -/
theorem step_within {allow : Allowance} (hcb : Within env allow env.callbacks)
    (hany : ∀ s data len,allow.value s data len) {op : StoreOp} (h : step env w op=some next) :
    EffectSeq env allow w next := by
  cases step_cases h with
  | inl hone =>
    obtain ⟨target,s,_,hs,rfl⟩ := hone
    exact visit_within hcb hany op (getByKey_of_find hs)
  | inr hall =>
    rw [hall.2]
    exact forEachSetting_effects (fun _ _ ht => visit_within hcb hany op ht) w

/-- Every step is a sequence of effects, whatever its callbacks do. -/
theorem step_effects {op : StoreOp} (h : step env w op=some next) :
    EffectSeq env anyValue w next :=
  step_within callbacks_within_any (fun _ _ _ => trivial) h

/-- Callbacks that modify nothing let a step store only what it checked. -/
theorem step_checked (hq : Passive env.callbacks) {op : StoreOp} (h : step env w op=some next) :
    EffectSeq env checkedValue w next :=
  step_within (within_of_passive hq) (fun _ _ _ => trivial) h

/-- A visit touches its own setting only, if the callbacks modify nothing. -/
theorem visit_onlyAt (hq : Passive env.callbacks) (op : StoreOp)
    (hs : w.getByKey s.key=some s) : OnlyAt s.key w (visit env op w s) := by
  cases op with
  | set => exact onlyAt_set hq hs
  | setDefault => exact onlyAt_setDefault hs
  | restoreDefaults => exact onlyAt_restore hq hs
  | restoreDefault => exact onlyAt_restore hq hs
  | setChanged => exact onlyAt_flag hs true
  | clearChangedOne => exact onlyAt_flag hs false
  | clearChanged => exact onlyAt_flag hs false

/-- The setting with this key is untouched, in RAM and in storage. -/
structure SameAt (key : CString) (w next : World) : Prop where
  /-- The record is the same. -/
  record : next.getByKey key=w.getByKey key
  /-- The three entries are the same. -/
  entry : ∀ subtree,next.nvs.lookup (keyWithPrefix subtree key)=
    w.nvs.lookup (keyWithPrefix subtree key)

/-- Nothing leaves the setting untouched. -/
theorem SameAt.refl (key : CString) (w : World) : SameAt key w w := ⟨rfl,fun _ => rfl⟩

/-- What is untouched by two parts is untouched by both. -/
theorem SameAt.trans {key : CString} {middle : World} (h : SameAt key w middle)
    (k : SameAt key middle next) : SameAt key w next :=
  ⟨k.record.trans h.record,fun subtree => (k.entry subtree).trans (h.entry subtree)⟩

/-- What touches one setting leaves every other untouched. -/
theorem OnlyAt.sameAt {key other : CString} (h : OnlyAt key w next) (ho : other≠key) :
    SameAt other w next :=
  ⟨h.record other ho,fun _ =>
    h.entry _ (fun _ he => ho (keyWithPrefix_inj.mp he).2)⟩

/-- An untouched setting has the same cells in both copies. -/
theorem SameAt.cells {key : CString} (h : SameAt key w next) (subtree : Subtree) :
    ram next (subtree,key)=ram w (subtree,key) ∧
      stored next (subtree,key)=stored w (subtree,key) := by
  unfold ram stored
  rw [h.record,h.entry subtree]
  exact ⟨rfl,rfl⟩

section Visits

variable {f : World → UserSetting → World} {items : List UserSetting}

/-- A visit of the first record leaves those still to be visited as they are. -/
theorem rest_unvisited {t : UserSetting} (honly : OnlyAt t.key w next)
    (hn : t.key∉items.map UserSetting.key) (hitems : ∀ x∈items,w.getByKey x.key=some x) :
    ∀ x∈items,next.getByKey x.key=some x := by
  intro x hx
  have hne : x.key≠t.key := fun h => hn (h ▸ List.mem_map_of_mem hx)
  rw [honly.record x.key hne]
  exact hitems x hx

/-- Visits of other records leave a setting untouched. -/
theorem visits_sameAt (hf : ∀ u t,u.getByKey t.key=some t → OnlyAt t.key u (f u t))
    (hn : (items.map UserSetting.key).Nodup) (hitems : ∀ t∈items,w.getByKey t.key=some t)
    (hk : s.key∉items.map UserSetting.key) :
    SameAt s.key w (items.foldl (fun u t => f u (u.deref t)) w) := by
  induction items generalizing w with
  | nil => exact SameAt.refl s.key w
  | cons t rest ih =>
    simp only [List.map_cons,List.nodup_cons,List.mem_cons,not_or] at hn hk
    have ht := hitems t List.mem_cons_self
    have honly := hf w t ht
    have hrest := rest_unvisited honly hn.1 fun x hx => hitems x (List.mem_cons_of_mem t hx)
    rw [List.foldl_cons,deref_eq ht]
    exact (OnlyAt.sameAt honly hk.1).trans (ih hn.2 hrest hk.2)

/-- Among visits of distinct records that of a setting is made when it is still
as it was, and is the last that touches it. -/
theorem visits_at (hf : ∀ u t,u.getByKey t.key=some t → OnlyAt t.key u (f u t))
    (hn : (items.map UserSetting.key).Nodup) (hitems : ∀ t∈items,w.getByKey t.key=some t)
    (hs : s∈items) :
    ∃ u,SameAt s.key w u ∧
      SameAt s.key (f u s) (items.foldl (fun u t => f u (u.deref t)) w) := by
  induction items generalizing w with
  | nil => cases hs
  | cons t rest ih =>
    simp only [List.map_cons,List.nodup_cons] at hn
    have ht := hitems t List.mem_cons_self
    have honly := hf w t ht
    have hrest := rest_unvisited honly hn.1 fun x hx => hitems x (List.mem_cons_of_mem t hx)
    rw [List.foldl_cons,deref_eq ht]
    cases List.mem_cons.mp hs with
    | inl hfirst =>
      subst hfirst
      exact ⟨w,SameAt.refl s.key w,visits_sameAt hf hn.2 hrest hn.1⟩
    | inr hlater =>
      have hne : s.key≠t.key := fun h => hn.1 (h ▸ List.mem_map_of_mem hlater)
      obtain ⟨u,hu,hend⟩ := ih hn.2 hrest hlater
      exact ⟨u,(OnlyAt.sameAt honly hne).trans hu,hend⟩

/-- A visit of all records acts on each of them like its own visit, made when
the setting is still as it was at the start. -/
theorem forEachSetting_at (hf : ∀ u t,u.getByKey t.key=some t → OnlyAt t.key u (f u t))
    (hs : w.getByKey s.key=some s) :
    ∃ u,SameAt s.key w u ∧ u.getByKey s.key=some s ∧
      SameAt s.key (f u s) (forEachSetting f w) := by
  obtain ⟨u,hu,hend⟩ := visits_at hf w.list.keysNodup (fun t ht => getByKey_of_mem ht)
    (getByKey_some hs).1
  exact ⟨u,hu,hu.record.trans hs,hend⟩

end Visits

/-- Storage that never fails, defaults that may be overwritten and callbacks
that do nothing. -/
def calm : Env := ⟨fun _ => 0,true,true,fun _ => []⟩

/-- A one-letter key. -/
def keyA : CString := ⟨CString.ascii ['a'],by decide⟩

/-- Another one-letter key. -/
def keyB : CString := ⟨CString.ascii ['b'],by decide⟩

/-- A device with one setting. -/
def device (type : UserSettingType) (size : ℕ) (onChangeCb : Option OnChangePtr)
    (validateCb : Option ValidateFn) : Setup := ⟨[⟨1,keyA,type,size,onChangeCb,validateCb⟩],none⟩

/-- The state that a list of operations on a new device leads to. -/
def runFrom (env : Env) (setup : Setup) (ops : List StoreOp) : Option World :=
  (boot env setup ∅).toOption.bind fun start => Transition.run (step env) start ops

/-- A run on a new device is a run from its first start. -/
theorem runFrom_some {env : Env} {setup : Setup} {ops : List StoreOp} {final : World}
    (h : runFrom env setup ops=some final) :
    ∃ start,boot env setup ∅=.ok start ∧ Transition.run (step env) start ops=some final := by
  unfold runFrom at h
  cases hb : boot env setup ∅ with
  | error e =>
    rw [hb] at h
    cases h
  | ok start =>
    rw [hb] at h
    exact ⟨start,rfl,h⟩

end UserSettings.Operations
