import UserSettings.Store
import Mathlib.Logic.Relation

/-!
# What the operations can do to the state

Every setter, whatever its callbacks do and whichever storage calls fail, is
a sequence of a few primitive effects: a checked write to RAM, a write of a
flag, the call of a callback, one attempt to store. Each function is shown
once to be such a sequence; a property that every effect keeps is then kept
by every function, and by all calls the callbacks make in between.
-/

namespace UserSettings.Effects

open Bytes Settings Storage Store

/-- What was registered for a record and stays fixed while settings are used. -/
def registration (s : UserSetting) : Registration :=
  ⟨s.id,s.key,s.type,s.maxSize,s.onChangeCb,s.validateCb⟩

/-- What was registered, in the order of the list. -/
def registrations (w : World) : List Registration := w.list.items.map registration

/-- The record found under a key was registered under it. -/
theorem find_registrations (w : World) (key : CString) :
    (w.getByKey key).map registration=(registrations w).find? (fun r => decide (key=r.key)) := by
  unfold registrations
  rw [List.find?_map]
  rfl

/-- A record is found under a key as long as the registrations stay. -/
theorem getByKey_of_registrations {w next : World} (h : registrations next=registrations w)
    {key : CString} {s : UserSetting} (hs : w.getByKey key=some s) :
    ∃ t,next.getByKey key=some t ∧ registration t=registration s := by
  have hf := find_registrations next key
  rw [h,←find_registrations,hs,Option.map_some] at hf
  exact Option.map_eq_some_iff.mp hf

/-- Every record is the one found under its own key. -/
theorem getByKey_of_find {w : World} {target : Target} {s : UserSetting}
    (h : w.find target=some s) : w.getByKey s.key=some s := by
  cases target with
  | key key => exact getByKey_of_mem (getByKey_some h).1
  | id id => exact getByKey_of_mem (getById_some h).1

/-- A record found under a key carries it. -/
theorem key_of_getByKey {w : World} {key : CString} {s : UserSetting}
    (h : w.getByKey key=some s) : s.key=key := (getByKey_some h).2

/-- A pointer to a listed record is read as the record. -/
theorem deref_eq {w : World} {s t : UserSetting} (h : w.getByKey s.key=some t) :
    w.deref s=t := by
  unfold World.deref
  rw [h,Option.getD_some]

/-- An update that keeps what was registered. -/
def Plain (u : Update) : Prop := ∀ s,registration (u.apply s)=registration s

/-- Plain updates keep all registrations. -/
theorem registrations_modify {u : Update} (hu : Plain u) (w : World) (key : CString) :
    registrations (w.modify key u)=registrations w := by
  unfold registrations World.modify SettingsList.modify
  rw [List.map_map]
  apply List.map_congr_left
  intro s _
  rw [Function.comp_apply]
  split
  · exact hu s
  · rfl

/-- The changed record is found under the key. -/
theorem modify_self {w : World} {key : CString} {s : UserSetting} (u : Update)
    (h : w.getByKey key=some s) : (w.modify key u).getByKey key=some (u.apply s) :=
  getByKey_modify_self u h

/-- Records under other keys stay as they are. -/
theorem modify_ne {w : World} {key other : CString} (u : Update) (h : other≠key) :
    (w.modify key u).getByKey other=w.getByKey other := getByKey_modify_ne u h

/-- Storing changes neither records nor registrations. -/
@[simp] theorem saveOne_list (env : Env) (w : World) (name : CString) (data : Mem) (len : ℕ) :
    (settingsSaveOne env w name data len).1.list=w.list := by
  unfold settingsSaveOne
  dsimp only
  split <;> rfl

/-- Storing calls no callback. -/
@[simp] theorem saveOne_trace (env : Env) (w : World) (name : CString) (data : Mem) (len : ℕ) :
    (settingsSaveOne env w name data len).1.trace=w.trace := by
  unfold settingsSaveOne
  dsimp only
  split <;> rfl

/-- Records are found as before storing. -/
@[simp] theorem saveOne_getByKey (env : Env) (w : World) (name : CString) (data : Mem) (len : ℕ)
    (key : CString) :
    (settingsSaveOne env w name data len).1.getByKey key=w.getByKey key := by
  unfold World.getByKey
  rw [saveOne_list]

/-- Only the bytes that are stored matter. -/
theorem saveOne_congr {env : Env} {w : World} {name : CString} {data other : Mem} {len : ℕ}
    (h : bytesAt data len=bytesAt other len) :
    settingsSaveOne env w name data len=settingsSaveOne env w name other len := by
  unfold settingsSaveOne
  rw [h]

/-- The result of storing is the one the environment gives. -/
theorem saveOne_result (env : Env) (w : World) (name : CString) (data : Mem) (len : ℕ) :
    (settingsSaveOne env w name data len).2=env.saveResult w.saves := by
  unfold settingsSaveOne
  dsimp only
  split
  · rename_i h
    exact h.symm
  · rfl

/-- The entries after one call: only a successful call changes its own entry. -/
theorem saveOne_lookup (env : Env) (w : World) (name other : CString) (data : Mem) (len : ℕ) :
    (settingsSaveOne env w name data len).1.nvs.lookup other=
      if other=name ∧ env.saveResult w.saves=0 then
        (if len=0 then none else some (bytesAt data len))
      else w.nvs.lookup other := by
  unfold settingsSaveOne
  dsimp only
  by_cases hr : env.saveResult w.saves=0
  · rw [if_pos hr]
    simp only [Entries.lookup_save,bytesAt_eq_nil,hr,and_true]
  · rw [if_neg hr,if_neg (fun h => hr h.2)]

/-- What the effects may do with values. -/
structure Allowance where
  /-- The values that may reach RAM. -/
  value : UserSetting → Mem → ℕ → Prop
  /-- The bytes that may be stored as a value though they are not the ones that
  were checked: the pointer of a call is read again before it stores. -/
  saved : UserSetting → Mem → ℕ → Prop

/-- One primitive effect on the state. What a value write is allowed to do
is left open; the other effects are always allowed. -/
inductive Effect (env : Env) (allow : Allowance) (w : World) : World → Prop
  /-- A checked, nonempty value reaches RAM. -/
  | value {s : UserSetting} {data : Mem} {len : ℕ} (hs : w.getByKey s.key=some s) (hn : 0<len)
      (hf : len ≤ s.maxSize) (hv : s.validates data len=true) (ha : allow.value s data len) :
      Effect env allow w (w.modify s.key (storeValue (bytesAt data len)))
  /-- A checked, nonempty default value reaches RAM. -/
  | default {s : UserSetting} {data : Mem} {len : ℕ} (hs : w.getByKey s.key=some s) (hn : 0<len)
      (hf : len ≤ s.maxSize) (hv : s.validates data len=true) :
      Effect env allow w (w.modify s.key (storeDefault (bytesAt data len)))
  /-- A changed flag reaches RAM. -/
  | flag (key : CString) (flag : Bool) : Effect env allow w (w.modify key (storeFlag flag))
  /-- A callback is called. -/
  | notify (kind : CallbackKind) (s : UserSetting) : Effect env allow w (w.notify kind s)
  /-- Checked bytes are stored as a value or as a default value, or bytes as a
  value that are read after others of this length were checked. -/
  | save {s : UserSetting} {subtree : Subtree} {data : Mem} {len : ℕ}
      (hs : w.getByKey s.key=some s) (ht : subtree≠.changed) (hf : len ≤ s.maxSize)
      (hv : s.validates data len=true ∨
        allow.saved s data len ∧ ∃ read,s.validates read len=true) :
      Effect env allow w (settingsSaveOne env w (keyWithPrefix subtree s.key) data len).1
  /-- A flag is stored. -/
  | saveFlag (key : CString) (flag : Bool) :
      Effect env allow w (settingsSaveOne env w (keyWithPrefix .changed key)
        (memOf [boolByte flag]) 1).1

/-- Any number of effects, one after another. -/
abbrev EffectSeq (env : Env) (allow : Allowance) : World → World → Prop :=
  Relation.ReflTransGen (Effect env allow)

/-- What the application registered and how far the module is started. -/
structure SameSetup (w next : World) : Prop where
  /-- The registrations are the same. -/
  regs : registrations next=registrations w
  /-- The global callback is the same. -/
  globalOnChangeCb : next.globalOnChangeCb=w.globalOnChangeCb
  /-- The module is as initialized as before. -/
  isInited : next.isInited=w.isInited
  /-- The module is as loaded as before. -/
  isLoaded : next.isLoaded=w.isLoaded

variable {env : Env} {allow : Allowance} {w next : World}

/-- Nothing changes nothing. -/
theorem SameSetup.refl (w : World) : SameSetup w w := ⟨rfl,rfl,rfl,rfl⟩

/-- What stays through two parts stays through both. -/
theorem SameSetup.trans {middle : World} (h : SameSetup w middle) (k : SameSetup middle next) :
    SameSetup w next :=
  ⟨k.regs.trans h.regs,k.globalOnChangeCb.trans h.globalOnChangeCb,
    k.isInited.trans h.isInited,k.isLoaded.trans h.isLoaded⟩

/-- Plain updates keep the setup. -/
theorem sameSetup_modify {u : Update} (hu : Plain u) (w : World) (key : CString) :
    SameSetup w (w.modify key u) := ⟨registrations_modify hu w key,rfl,rfl,rfl⟩

/-- Storing keeps the setup. -/
theorem sameSetup_saveOne (env : Env) (w : World) (name : CString) (data : Mem) (len : ℕ) :
    SameSetup w (settingsSaveOne env w name data len).1 := by
  unfold settingsSaveOne
  dsimp only
  split <;> exact ⟨rfl,rfl,rfl,rfl⟩

/-- No effect touches the setup. -/
theorem Effect.sameSetup (h : Effect env allow w next) : SameSetup w next := by
  cases h with
  | value => exact sameSetup_modify (fun _ => rfl) _ _
  | default => exact sameSetup_modify (fun _ => rfl) _ _
  | flag => exact sameSetup_modify (fun _ => rfl) _ _
  | notify => exact ⟨rfl,rfl,rfl,rfl⟩
  | save => exact sameSetup_saveOne _ _ _ _ _
  | saveFlag => exact sameSetup_saveOne _ _ _ _ _

/-- No sequence of effects touches the setup. -/
theorem EffectSeq.sameSetup (h : EffectSeq env allow w next) : SameSetup w next := by
  induction h with
  | refl => exact SameSetup.refl w
  | tail _ step ih => exact ih.trans step.sameSetup

/-- A property that every effect keeps is kept by sequences of effects. -/
theorem EffectSeq.invariant {P : World → Prop}
    (hp : ∀ w next,P w → Effect env allow w next → P next)
    (h : EffectSeq env allow w next) (hw : P w) : P next := by
  induction h with
  | refl => exact hw
  | tail _ step ih => exact hp _ _ ih step

end UserSettings.Effects
