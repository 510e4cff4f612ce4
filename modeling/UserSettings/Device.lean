import UserSettings.Executor
import UserSettings.Json

/-!
# Devices

A device runs from its first start through any calls of the application,
imports of JSON, commands of the binary protocol and reboots. Whatever comes
in from outside reaches the settings through the setters only, so every
operation is a sequence of effects or a start, and a property that both keep
holds of every device.
-/

namespace UserSettings.Device

open Bytes Settings Storage Store Effects Setters Reactions Load Operations Transition Binary
open Executor Json Records Cells

variable {env : Env} {allow : Allowance} {w next : World} {ret : ℤ}

/-- Setting a value through the public function. -/
theorem set_effects {target : Target} {data : Mem} {len : ℕ}
    (hcb : Within env allow env.callbacks)
    (h : userSettingsSet env w target data len=.ok (next,ret))
    (ha : ∀ s,w.find target=some s → 0<len → Writes s data len → allow.value s data len) :
    EffectSeq env allow w next := by
  obtain ⟨_,s,hs,hr⟩ := withSetting_ok h
  have hnext : next=(prvUserSettingsSet env env.callbacks w s data len).1 :=
    congrArg Prod.fst hr
  rw [hnext]
  exact userSettingsSet_effects hcb (getByKey_of_find hs) (ha s hs)

/-- Setting a default value through the public function. -/
theorem setDefault_effects {target : Target} {data : Mem} {len : ℕ}
    (h : userSettingsSetDefault env w target data len=.ok (next,ret)) :
    EffectSeq env allow w next := by
  obtain ⟨_,s,hs,hr⟩ := withSetting_ok h
  have hnext : next=(prvUserSettingsSetDefault env env.callbacks w s data len).1 :=
    congrArg Prod.fst hr
  rw [hnext]
  exact userSettingsSetDefault_effects (getByKey_of_find hs)

/-- Marking a setting as changed through the public function. -/
theorem setChanged_effects {target : Target} (h : userSettingsSetChanged env w target=.ok next) :
    EffectSeq env allow w next := by
  obtain ⟨_,s,hs,rfl⟩ := withSetting_ok h
  exact setChangedRecentlyFlag_effects (getByKey_of_find hs) true

/-- Importing one member is a sequence of effects. -/
theorem prvSetFromJson_effects {stack : Mem} {key : CString} {type : UserSettingType}
    {setting : CJson} {alwaysMarkChanged : Bool}
    (h : prvSetFromJson env stack w key type setting alwaysMarkChanged=.ok (next,ret)) :
    EffectSeq env anyValue w next := by
  unfold prvSetFromJson at h
  obtain ⟨bytes?,_,h⟩ := bind_eq_ok.mp h
  cases bytes? with
  | none =>
    cases h
    exact .refl
  | some bytes =>
    obtain ⟨⟨middle,err⟩,hset,h⟩ := bind_eq_ok.mp h
    have hfirst : EffectSeq env anyValue w middle :=
      set_effects callbacks_within_any hset (fun _ _ _ _ => trivial)
    dsimp only at h
    split at h
    · cases h
      exact hfirst
    · split at h
      · obtain ⟨last,hmark,h⟩ := bind_eq_ok.mp h
        cases h
        exact hfirst.trans (setChanged_effects hmark)
      · cases h
        exact hfirst

/-- Importing a list of members is a sequence of effects. -/
theorem setAllFromJson_effects {stack : Mem} {alwaysMarkChanged : Bool} {settings : List CJson}
    (h : setAllFromJson env stack alwaysMarkChanged w settings=.ok (next,ret)) :
    EffectSeq env anyValue w next := by
  induction settings generalizing w with
  | nil =>
    cases h
    exact .refl
  | cons setting rest ih =>
    unfold setAllFromJson at h
    split at h
    · exact ih h
    · obtain ⟨key?,_,h⟩ := bind_eq_ok.mp h
      cases key? with
      | none => exact ih h
      | some key =>
        obtain ⟨type,_,h⟩ := bind_eq_ok.mp h
        obtain ⟨⟨middle,err⟩,hone,h⟩ := bind_eq_ok.mp h
        have hfirst := prvSetFromJson_effects hone
        dsimp only at h
        split at h
        · cases h
          exact hfirst
        · exact hfirst.trans (ih h)

/-- An import is a sequence of effects. -/
theorem setFromJson_effects {stack : Mem} {settings : Option CJson} {alwaysMarkChanged : Bool}
    (h : userSettingsSetFromJson env stack w settings alwaysMarkChanged=.ok (next,ret)) :
    EffectSeq env anyValue w next := by
  cases settings with
  | none =>
    cases h
    exact .refl
  | some settings => exact setAllFromJson_effects h

variable {setup : Setup} {ex : UspExecutor} {st last : ExecState}

/-- A GET command does not touch settings. -/
theorem get_world {encode : UserSetting → Mem → ℕ → Mem×ℤ} {id : UInt16}
    (h : prvExecGetCommon ex encode st id=.ok (last,ret)) : last.world=st.world := by
  unfold prvExecGetCommon at h
  split at h
  · cases h
    rfl
  · exact respond_world h

/-- Commands that do not touch settings do not do so one after another. -/
theorem stopAtError_world {α : Type} {exec : ExecState → α → Executed} {items : List α}
    (hexec : ∀ st a next ret,exec st a=.ok (next,ret) → next.world=st.world)
    (h : stopAtError exec st items=.ok (last,ret)) : last.world=st.world := by
  refine stopAtError_keeps (P:=fun s => s.world=st.world) ?_ rfl h
  intro mid a next code hmid he
  exact (hexec mid a next code he).trans hmid

/-- A SET command. -/
theorem execSet_effects {id : UInt16} {value : Mem} {valueLen : UInt8}
    (hcb : Within env allow env.callbacks)
    (h : prvExecSet env st id value valueLen=.ok (last,ret))
    (ha : ∀ s,st.world.find (.id id)=some s → 0<valueLen.toNat →
      Writes s value valueLen.toNat → allow.value s value valueLen.toNat) :
    EffectSeq env allow st.world last.world := by
  unfold prvExecSet at h
  obtain ⟨found,_,h⟩ := bind_eq_ok.mp h
  split at h
  · obtain ⟨⟨middle,err⟩,hset,h⟩ := bind_eq_ok.mp h
    cases h
    exact set_effects hcb hset ha
  · cases h
    exact .refl

/-- A SET DEFAULT command. -/
theorem execSetDefault_effects {id : UInt16} {value : Mem} {valueLen : UInt8}
    (h : prvExecSetDefault env st id value valueLen=.ok (last,ret)) :
    EffectSeq env allow st.world last.world := by
  unfold prvExecSetDefault at h
  obtain ⟨found,_,h⟩ := bind_eq_ok.mp h
  split at h
  · obtain ⟨⟨middle,err⟩,hset,h⟩ := bind_eq_ok.mp h
    cases h
    exact setDefault_effects hset
  · cases h
    exact .refl

/-- A RESTORE command. -/
theorem execRestore_effects (h : prvExecRestore env st=.ok (last,ret)) :
    EffectSeq env anyValue st.world last.world := by
  unfold prvExecRestore at h
  obtain ⟨middle,hrestore,h⟩ := bind_eq_ok.mp h
  cases h
  have hstep : step env st.world .restoreDefaults=some middle := by
    unfold step StoreOp.exec
    dsimp only
    rw [hrestore]
    rfl
  exact step_effects hstep

/-- Executing a command of any protocol is a sequence of effects. -/
theorem parseAndExecute_effects {buffer : Mem} {len : UInt32}
    (h : uspExecutorParseAndExecute env ex st buffer len=.ok (last,ret)) :
    EffectSeq env anyValue st.world last.world := by
  have hget : ∀ {encode : UserSetting → Mem → ℕ → Mem×ℤ} {id : UInt16},
      prvExecGetCommon ex encode st id=.ok (last,ret) →
      EffectSeq env anyValue st.world last.world := fun h => get_world h ▸ .refl
  have hlist : ∀ {encode : UserSetting → Mem → ℕ → Mem×ℤ},
      prvExecListCommon ex encode st=.ok (last,ret) →
      EffectSeq env anyValue st.world last.world :=
    fun h => stopAtError_world (fun _ _ _ _ => respond_world) h ▸ .refl
  have hsome : ∀ {encode : UserSetting → Mem → ℕ → Mem×ℤ} {numIds : UInt8} {ids : Mem},
      prvExecListSome ex encode st numIds ids=.ok (last,ret) →
      EffectSeq env anyValue st.world last.world :=
    fun h => stopAtError_world (fun _ _ _ _ => get_world) h ▸ .refl
  unfold uspExecutorParseAndExecute at h
  dsimp only at h
  split at h
  · cases h
  · split at h
    · cases h
      exact .refl
    · split at h
      · exact hget h
      · exact hget h
      · exact hlist h
      · exact hlist h
      · exact execSet_effects callbacks_within_any h (fun _ _ _ _ => trivial)
      · exact execSetDefault_effects h
      · exact execRestore_effects h
      · exact hsome h
      · exact hsome h
      · cases h

/-- A registered setting with the key of a record is the one of the record. -/
theorem registered_eq {r : Registration} {s : UserSetting}
    (hregs : registrations w=registered setup) (hs : w.getByKey s.key=some s)
    (hr : r∈registered setup) (hk : r.key=s.key) : r=registration s := by
  rw [←hregs] at hr
  obtain ⟨t,ht,rfl⟩ := List.mem_map.mp hr
  have hfound : w.getByKey t.key=some t := getByKey_of_mem ht
  have hkey : t.key=s.key := hk
  rw [hkey,hs] at hfound
  rw [Option.some.inj hfound]

/-- What may happen to a device. -/
inductive DeviceOp where
  /-- A call of the application. -/
  | store (op : StoreOp)
  /-- An import of JSON. -/
  | json (stack : Mem) (settings : Option CJson) (alwaysMarkChanged : Bool)
  /-- A command of the binary protocol. -/
  | binary (respBufferLen : ℕ) (writeResponse : List (List UInt8) → List UInt8 → ℤ)
    (respBuffer buffer : Mem) (len : UInt32)
  /-- A loss of power and the next start. -/
  | reboot

/-- A step of a device; a fault has no next state. -/
def deviceStep (env : Env) (setup : Setup) (w : World) : DeviceOp → Option World
  | .store op => Operations.step env w op
  | .json stack settings alwaysMarkChanged =>
    (userSettingsSetFromJson env stack w settings alwaysMarkChanged).toOption.map Prod.fst
  | .binary respBufferLen writeResponse respBuffer buffer len =>
    (uspExecutorParseAndExecute env (binaryExecutor respBufferLen writeResponse)
      ⟨w,respBuffer,[]⟩ buffer len).toOption.map fun result => result.1.world
  | .reboot => (reboot env setup w).toOption

variable {nvs : Entries}

/-- Every step is a sequence of effects or a start. -/
theorem deviceStep_cases {op : DeviceOp} (h : deviceStep env setup w op=some next) :
    EffectSeq env anyValue w next ∨ Booted setup w next := by
  cases op with
  | store op => exact .inl (step_effects h)
  | json stack settings alwaysMarkChanged =>
    obtain ⟨result,hrun,rfl⟩ := Option.map_eq_some_iff.mp h
    exact .inl (setFromJson_effects (toOption_eq_some.mp hrun))
  | binary respBufferLen writeResponse respBuffer buffer len =>
    obtain ⟨result,hrun,rfl⟩ := Option.map_eq_some_iff.mp h
    exact .inl (parseAndExecute_effects (toOption_eq_some.mp hrun))
  | reboot => exact .inr (reboot_ok (toOption_eq_some.mp h))

/-- The states of a device that first starts with some entries. -/
def Reachable (env : Env) (setup : Setup) (nvs : Entries) (w : World) : Prop :=
  ∃ start ops,boot env setup nvs=.ok start ∧ run (deviceStep env setup) start ops=some w

/-- What the first start establishes and starts and effects keep holds in
every state of a device. -/
theorem Reachable.invariant {P : World → Prop} (h : Reachable env setup nvs w)
    (hfirst : ∀ v,Booted setup (World.unstarted nvs) v → P v)
    (hboot : ∀ u v,P u → Booted setup u v → P v)
    (heffect : ∀ u v,P u → Effect env anyValue u v → P v) : P w := by
  obtain ⟨start,ops,hb,hrun⟩ := h
  refine run_invariant_always ?_ (hfirst start (reboot_ok hb)) hrun
  intro u op v hu hstep
  cases deviceStep_cases hstep with
  | inl hseq => exact hseq.invariant heffect hu
  | inr hbooted => exact hboot u v hu hbooted

/-- A device has its setup registered in every state. -/
theorem Reachable.registered (h : Reachable env setup nvs w) :
    registrations w=registered setup := by
  refine h.invariant (P:=fun v => registrations v=Cells.registered setup) ?_ ?_ ?_
  · exact fun v hv => booted_registrations hv
  · exact fun _ v _ hv => booted_registrations hv
  · exact fun u v hu hv => hv.sameSetup.regs.trans hu

/-- A device is loaded in every state. -/
theorem Reachable.isLoaded (h : Reachable env setup nvs w) : w.isLoaded=true := by
  refine h.invariant (P:=fun v => v.isLoaded=true) ?_ ?_ ?_
  · exact fun v hv => hv.isLoaded
  · exact fun _ v _ hv => hv.isLoaded
  · exact fun u v hu hv => hv.sameSetup.isLoaded.trans hu

/-- Every record of a device has its shape in every state. -/
theorem Reachable.recordOk (h : Reachable env setup nvs w) : AllRecords RecordOk w := by
  refine h.invariant (P:=AllRecords RecordOk) ?_ ?_ effect_recordOk
  · exact fun v hv => booted_recordOk hv
  · exact fun _ v _ hv => booted_recordOk hv

/-- A device is running in every state. -/
theorem running_of_reachable (h : Reachable env setup nvs w) : Running setup w :=
  ⟨h.registered,h.isLoaded,h.recordOk⟩

end UserSettings.Device
