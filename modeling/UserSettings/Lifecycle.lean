import UserSettings.Operations

/-!
# The settings list over its whole life

From the first call of the init function on: settings are added, callbacks
registered, stores of any content loaded and loaded again, values written,
restored and flagged, in any order in which the assertions hold. Every such
step keeps the shape of all records; distinct names are part of the list.
-/

namespace UserSettings.Lifecycle

open Bytes Settings Storage Store Effects Reactions Load Operations Transition Records

/-- Anything an application does with the module. -/
inductive LifecycleOp where
  /-- Initialize; err is the first error of the settings subsystem. -/
  | init (err : ℤ)
  /-- Add a setting of fixed size. -/
  | add (id : UInt16) (key : CString) (type : UserSettingType)
  /-- Add a string or bytes setting. -/
  | addSized (id : UInt16) (key : CString) (type : UserSettingType) (size : ℕ)
  /-- Register the on_change callback of a setting. -/
  | setOnChangeCb (key : CString) (cb : Option OnChangePtr)
  /-- Register the validate callback of a setting. -/
  | setValidateCb (key : CString) (cb : Option ValidateFn)
  /-- Register the global on_change callback. -/
  | setGlobalOnChangeCb (cb : Option OnChangePtr)
  /-- Load from a backend with any content, order and read errors. -/
  | load (backend : Subtree → Loading)
  /-- A call on settings. -/
  | store (op : StoreOp)

/-- A step that passes its assertions. -/
def lifecycleStep (env : Env) (w : World) : LifecycleOp → Option World
  | .init err => (userSettingsInit w err).toOption.map Prod.fst
  | .add id key type => (userSettingsAdd w id key type).toOption
  | .addSized id key type size => (userSettingsAddSized w id key type size).toOption
  | .setOnChangeCb key cb => (userSettingsSetOnChangeCbWithKey w key cb).toOption
  | .setValidateCb key cb => (userSettingsSetValidateCbWithKey w key cb).toOption
  | .setGlobalOnChangeCb cb => (userSettingsSetGlobalOnChangeCb w cb).toOption
  | .load backend => (userSettingsLoad env w backend).toOption.map Prod.fst
  | .store op => Operations.step env w op

/-- The representation invariant of the list. -/
structure Represented (w : World) : Prop where
  /-- Identifiers are pairwise distinct. -/
  ids : (w.list.items.map UserSetting.id).Nodup
  /-- Keys are pairwise distinct. -/
  keys : (w.list.items.map UserSetting.key).Nodup
  /-- The two translations between them are mutually inverse. -/
  inverse : ∀ key id,userSettingsKeyToId w key=.ok id ↔ userSettingsIdToKey w id=.ok key
  /-- Lengths fit, set means a positive length, unset buffers are all zero. -/
  records : ∀ s∈w.list.items,RecordOk s

variable {env : Env} {cb : Callbacks} {w next : World}

/-- A listed setting is found by key exactly when it is found by identifier. -/
theorem find_key_iff {s : UserSetting} : w.find (.key s.key)=some s ↔ w.find (.id s.id)=some s := by
  constructor
  · exact fun h => getById_of_mem (getByKey_some h).1
  · exact fun h => getByKey_of_mem (getById_some h).1

/-- The two translations are mutually inverse. -/
theorem keyToId_iff (key : CString) (id : UInt16) :
    userSettingsKeyToId w key=.ok id ↔ userSettingsIdToKey w id=.ok key := by
  constructor
  · intro h
    obtain ⟨hl,s,hs,rfl⟩ := withSetting_ok h
    have hkey : s.key=key := (getByKey_some hs).2
    rw [←hkey] at hs ⊢
    exact withSetting_eq hl (find_key_iff.mp hs) UserSetting.key
  · intro h
    obtain ⟨hl,s,hs,rfl⟩ := withSetting_ok h
    have hid : s.id=id := (getById_some hs).2
    rw [←hid] at hs ⊢
    exact withSetting_eq hl (find_key_iff.mpr hs) UserSetting.id

/-- What a step that passes its assertions can do. -/
inductive Stepped (env : Env) (w next : World) : Prop where
  /-- The module is initialized, with an empty list. -/
  | initialized (hnot : w.isInited=false) (hlist : next.list=userSettingsListInit)
  /-- A setting is added. -/
  | added {id : UInt16} {key : CString} {type : UserSettingType} {size : ℕ} {list : SettingsList}
    (hinited : w.isInited=true) (hadd : prvUserSettingsListAdd w.list id key type size=.ok list)
    (hnext : next={w with list := list})
  /-- A callback of a setting is registered. -/
  | registered {key : CString} {u : Update} (hinited : w.isInited=true)
    (hu : ∀ s,RecordOk s → RecordOk (u.apply s)) (hnext : next=w.modify key u)
  /-- The global callback is registered. -/
  | kept (hinited : next.isInited=true) (hlist : next.list=w.list)
  /-- Entries are loaded. -/
  | loaded {backend : Subtree → Loading} {ret : ℤ} (hinited : w.isInited=true)
    (hload : userSettingsLoad env w backend=.ok (next,ret))
  /-- A call on settings returns. -/
  | called {op : StoreOp} (hstep : Operations.step env w op=some next)

/-- Registering a callback of a setting leaves its value and default alone. -/
theorem stepped_register {key : CString} {u : Update} (hu : ∀ s,RecordOk s → RecordOk (u.apply s))
    (h : registerWithKey w key u=.ok next) : Stepped env w next := by
  unfold registerWithKey at h
  split at h
  · rename_i hc
    cases h
    exact .registered hc.1 hu rfl
  · cases h

/-- Every step does one of these. -/
theorem lifecycleStep_cases {op : LifecycleOp} (h : lifecycleStep env w op=some next) :
    Stepped env w next := by
  cases op with
  | init err =>
    obtain ⟨⟨started,ret⟩,hrun,rfl⟩ := Option.map_eq_some_iff.mp h
    have hok := toOption_eq_some.mp hrun
    unfold userSettingsInit at hok
    split at hok
    · cases hok
    · rename_i hnot
      refine .initialized (by simpa using hnot) ?_
      split at hok
      · cases hok
        rfl
      · cases hok
        rfl
  | add id key type =>
    have hok := toOption_eq_some.mp h
    unfold userSettingsAdd userSettingsListAddFixedSize at hok
    split at hok
    · rename_i hc
      obtain ⟨list,hadd,he⟩ := bind_eq_ok.mp hok
      cases he
      split at hadd
      · cases hadd
      · exact .added hc.1 hadd rfl
    · cases hok
  | addSized id key type size =>
    have hok := toOption_eq_some.mp h
    unfold userSettingsAddSized userSettingsListAddVariableSize at hok
    split at hok
    · rename_i hc
      obtain ⟨list,hadd,he⟩ := bind_eq_ok.mp hok
      cases he
      split at hadd
      · exact .added hc.1 hadd rfl
      · cases hadd
    · cases hok
  | setOnChangeCb key ptr =>
    exact stepped_register (fun _ hs => ⟨hs.value,hs.default⟩) (toOption_eq_some.mp h)
  | setValidateCb key fn =>
    exact stepped_register (fun _ hs => ⟨hs.value,hs.default⟩) (toOption_eq_some.mp h)
  | setGlobalOnChangeCb ptr =>
    have hok := toOption_eq_some.mp h
    unfold userSettingsSetGlobalOnChangeCb at hok
    split at hok
    · rename_i hc
      cases hok
      exact .kept hc rfl
    · cases hok
  | load backend =>
    obtain ⟨⟨loaded,ret⟩,hrun,rfl⟩ := Option.map_eq_some_iff.mp h
    have hok := toOption_eq_some.mp hrun
    have hinited : w.isInited=true := by
      unfold userSettingsLoad at hok
      split at hok
      · assumption
      · cases hok
    exact .loaded hinited hok
  | store op => exact .called h

/-- A new record has its shape. -/
theorem recordOk_fresh (id : UInt16) (key : CString) (type : UserSettingType) (size : ℕ) :
    RecordOk (UserSetting.fresh id key type size) :=
  ⟨⟨Nat.zero_le _,by simp [UserSetting.fresh],fun _ => rfl⟩,
    ⟨Nat.zero_le _,by simp [UserSetting.fresh],fun _ => rfl⟩⟩

/-- Adding a record keeps the shape of all. -/
theorem recordOk_listAdd {list added : SettingsList} {id : UInt16} {key : CString}
    {type : UserSettingType} {size : ℕ} (hw : ∀ s∈list.items,RecordOk s)
    (h : prvUserSettingsListAdd list id key type size=.ok added) :
    ∀ s∈added.items,RecordOk s := by
  unfold prvUserSettingsListAdd at h
  split at h
  · cases h
    intro s hs
    rcases List.mem_append.mp hs with hold|hnew
    · exact hw s hold
    · rw [List.mem_singleton.mp hnew]
      exact recordOk_fresh id key type size
  · cases h

/-- Notifying both callbacks is a sequence of effects, whatever they do. -/
theorem notified_effects (env : Env) (w : World) (s : UserSetting) : EffectSeq env anyValue w
    (notifyOwn env.callbacks (notifyGlobal env.callbacks w s) s) := by
  have hglobal : EffectSeq env anyValue w (notifyGlobal env.callbacks w s) :=
    Setters.notifyGlobal_effects callbacks_within_any w s
  have hown : EffectSeq env anyValue (notifyGlobal env.callbacks w s)
      (notifyOwn env.callbacks (notifyGlobal env.callbacks w s) s) :=
    Setters.notifyOwn_effects callbacks_within_any _ s
  exact hglobal.trans hown

/-- Notifying callbacks keeps the shape of all records. -/
theorem recordOk_notify (s : UserSetting) (hw : AllRecords RecordOk w) :
    AllRecords RecordOk (notifyOwn env.callbacks (notifyGlobal env.callbacks w s) s) :=
  (notified_effects env w s).invariant effect_recordOk hw

/-- One delivery keeps the shape of all records, whatever is read. -/
theorem recordOk_hSet (subtree : Subtree) (key : CString) (len : ℕ) (readCb : ReadCb)
    (hw : AllRecords RecordOk w) :
    AllRecords RecordOk (hSet env.callbacks w subtree key len readCb).1 := by
  have hloaded : ∀ bytes,AllRecords RecordOk (w.modify key (loadUpdate subtree bytes)) :=
    fun bytes => hw.modify fun _ _ hok => recordOk_loadUpdate subtree bytes hok
  rcases hSet_cases env.callbacks w subtree key len readCb with h|⟨s,bytes,_,h|⟨_,h⟩⟩ <;> rw [h]
  · exact hw
  · exact hloaded bytes
  · exact recordOk_notify s (hloaded bytes)

/-- Loading keeps the shape of all records, whatever is stored. -/
theorem recordOk_load {backend : Subtree → Loading} {ret : ℤ} (hw : AllRecords RecordOk w)
    (h : userSettingsLoad env w backend=.ok (next,ret)) : AllRecords RecordOk next := by
  refine load_keeps (fun subtree u hu => ?_) (fun _ hu => hu) hw h
  exact loadSubtree_keeps (fun d _ v hv => recordOk_hSet subtree d.key d.len d.readCb hv) hu

/-- Every step keeps the shape of all records. -/
theorem recordOk_step {op : LifecycleOp} (hw : AllRecords RecordOk w)
    (h : lifecycleStep env w op=some next) : AllRecords RecordOk next := by
  cases lifecycleStep_cases h with
  | initialized _ hlist =>
    intro s hs
    rw [hlist] at hs
    cases hs
  | added _ hadd hnext =>
    rw [hnext]
    exact recordOk_listAdd hw hadd
  | registered _ hu hnext =>
    rw [hnext]
    exact hw.modify fun s _ hs => hu s hs
  | kept _ hlist =>
    intro s hs
    rw [hlist] at hs
    exact hw s hs
  | loaded _ hload => exact recordOk_load hw hload
  | called hstep => exact (step_effects hstep).invariant effect_recordOk hw

/-- After any steps from a device that was never started every record has its
shape. -/
theorem recordOk_run {nvs : Entries} {ops : List LifecycleOp}
    (h : run (lifecycleStep env) (World.unstarted nvs) ops=some w) : AllRecords RecordOk w := by
  refine run_invariant_always (I:=AllRecords RecordOk) ?_ ?_ h
  · exact fun _ _ _ hw hs => recordOk_step hw hs
  · intro s hs
    cases hs

/-- For every environment (storage that fails at any call, callbacks that set
settings) and every sequence of initializations, additions, registrations,
loads of any content and calls on settings that passes its assertions: the
list satisfies the representation invariant. -/
theorem representation_invariant (env : Env) (nvs : Entries) (ops : List LifecycleOp) (w : World)
    (h : run (lifecycleStep env) (World.unstarted nvs) ops=some w) : Represented w :=
  ⟨w.list.idsNodup,w.list.keysNodup,keyToId_iff,recordOk_run h⟩

/-- A setting is added, loaded from an entry that is too long, and set. -/
theorem represented_on_device : ∃ w,run (lifecycleStep calm) (World.unstarted ∅)
      [.init 0,.add 1 keyA .u8,.load (loadingOf [⟨keyWithPrefix .value keyA,[1,2]⟩]),
        .store (.set (.key keyA) (memOf [5]) 1)]=some w ∧ Represented w :=
  ⟨_,rfl,representation_invariant calm ∅ [.init 0,.add 1 keyA .u8,
    .load (loadingOf [⟨keyWithPrefix .value keyA,[1,2]⟩]),
    .store (.set (.key keyA) (memOf [5]) 1)] _ rfl⟩

end UserSettings.Lifecycle
