import UserSettings.Moves
import UserSettings.Nested

/-!
# A call acts on the setting it names

A setting may be named by identifier or by key, and a write searches the list
once more by the key printed into a name. Both ways end at the same record. A
call touches that record and its three entries; beyond these it touches only
settings that are named in calls made by callbacks while it runs. Which calls
these are is followed through the tree of calls.
-/

namespace UserSettings.Addressing

open Bytes Settings Storage Store Effects Setters Reactions Cells Outcomes Operations Moves
open Device Nested Transition

/-- The callbacks of a set call are notified and name a setting. -/
def CalledBack (cb : Callbacks) (globalNames ownNames : World → CString → Prop) (w : World)
    (s : UserSetting) (data : Mem) (len : ℕ) (key : CString) : Prop :=
  Writes s data len ∧ len≠0 ∧
    let written := w.modify s.key (storeValue (bytesAt data len))
    let told := notifyGlobal cb written s
    ((written.globalOnChangeCb.isSome && written.isLoaded)=true ∧
        globalNames (written.notify .global s) key) ∨
      ((s.onChangeCb.isSome && told.isLoaded)=true ∧ ownNames (told.notify .own s) key)

mutual

/-- A call of a callback, or a call made by the callbacks it notifies, names a
setting. -/
def Names (env : Env) : Reaction → World → CString → Prop
  | .set target p len onGlobal onOwn,w,key =>
    ∃ s,w.find target=some s ∧ (key=s.key ∨
      CalledBack ⟨Reaction.execAll env onGlobal,Reaction.execAll env onOwn⟩
        (NamesAll env onGlobal) (NamesAll env onOwn) w s (p w) len key)

/-- One of the calls of a callback names a setting, each in the state before it. -/
def NamesAll (env : Env) : List Reaction → World → CString → Prop
  | [],_,_ => False
  | reaction::rest,w,key =>
    Names env reaction w key ∨ NamesAll env rest (Reaction.exec env reaction w) key

end

/-- A callback of the application that is notified names a setting. -/
def ReactionNames (env : Env) (w : World) (key : CString) : Prop :=
  NamesAll env (env.react w.trace.length) w key

/-- A callback names a setting in a call it makes while the application's call
runs. -/
def CallbackNames (env : Env) (w : World) (s : UserSetting) (call : SettingCall)
    (key : CString) : Prop :=
  match call with
  | .set data len =>
    CalledBack env.callbacks (ReactionNames env) (ReactionNames env) w s data len key
  | .restoreDefault => s.isSet=true ∧ CalledBack env.callbacks (ReactionNames env)
      (ReactionNames env) w s s.defaultData.mem s.defaultDataLen key
  | .setDefault .. | .setChanged | .clearChanged => False

/-- Nothing but some settings is touched, in RAM or in storage. -/
structure OnlyAmong (touched : CString → Prop) (w next : World) : Prop where
  /-- Other records stay. -/
  record : ∀ key,¬touched key → next.getByKey key=w.getByKey key
  /-- Entries of other names stay. -/
  entry : ∀ name,(∀ subtree key,touched key → name≠keyWithPrefix subtree key) →
    next.nvs.lookup name=w.nvs.lookup name
  /-- The registrations stay. -/
  regs : registrations next=registrations w

variable {env : Env} {cb : Callbacks} {w next : World} {s : UserSetting} {data : Mem} {len : ℕ}
variable {touched : CString → Prop}

/-- Nothing touches nothing. -/
theorem OnlyAmong.refl (touched : CString → Prop) (w : World) : OnlyAmong touched w w :=
  ⟨fun _ _ => rfl,fun _ _ => rfl,rfl⟩

/-- What two parts leave alone both leave alone. -/
theorem OnlyAmong.trans {middle : World} (h : OnlyAmong touched w middle)
    (k : OnlyAmong touched middle next) : OnlyAmong touched w next :=
  ⟨fun key hk => (k.record key hk).trans (h.record key hk),
    fun name hn => (k.entry name hn).trans (h.entry name hn),k.regs.trans h.regs⟩

/-- More may be touched. -/
theorem OnlyAmong.mono {more : CString → Prop} (h : OnlyAmong touched w next)
    (hsub : ∀ key,touched key → more key) : OnlyAmong more w next :=
  ⟨fun key hk => h.record key fun ht => hk (hsub key ht),
    fun name hn => h.entry name fun subtree key ht => hn subtree key (hsub key ht),h.regs⟩

/-- One setting among others. -/
theorem OnlyAmong.of_onlyAt {key : CString} (h : OnlyAt key w next) (hk : touched key) :
    OnlyAmong touched w next :=
  ⟨fun other ho => h.record other fun he => ho (he ▸ hk),
    fun name hn => h.entry name fun subtree => hn subtree key hk,h.regs⟩

/-- Being notified touches nothing; what the callback does comes on top. -/
theorem OnlyAmong.notified {kind : CallbackKind}
    (h : OnlyAmong touched (w.notify kind s) next) : OnlyAmong touched w next :=
  ⟨h.record,h.entry,h.regs⟩

section SetCall

variable {globalNames ownNames : World → CString → Prop}
variable (hglobal : ∀ u,OnlyAmong (globalNames u) u (cb.global u))
variable (hown : ∀ u,OnlyAmong (ownNames u) u (cb.own u))
include hglobal hown

/-- Behind the write of a value to RAM, the callbacks touch what they name. -/
theorem notified_among (hw : Writes s data len) (hn : len≠0) :
    OnlyAmong (CalledBack cb globalNames ownNames w s data len)
      (w.modify s.key (storeValue (bytesAt data len))) (valueWritten cb w s data len) := by
  unfold valueWritten
  rw [if_neg hn]
  let written := w.modify s.key (storeValue (bytesAt data len))
  let told := notifyGlobal cb written s
  have htold : OnlyAmong (CalledBack cb globalNames ownNames w s data len) written told := by
    dsimp only [told]
    unfold notifyGlobal
    split
    · rename_i hc
      exact ((hglobal _).mono fun key hk => ⟨hw,hn,.inl ⟨hc,hk⟩⟩).notified
    · exact OnlyAmong.refl _ _
  have hdone : OnlyAmong (CalledBack cb globalNames ownNames w s data len) told
      (notifyOwn cb told s) := by
    unfold notifyOwn
    split
    · rename_i hc
      exact ((hown _).mono fun key hk => ⟨hw,hn,.inr ⟨hc,hk⟩⟩).notified
    · exact OnlyAmong.refl _ _
  exact htold.trans hdone

/-- Writing a value to RAM touches its setting and what the callbacks name. -/
theorem valueWritten_among (hw : Writes s data len) :
    OnlyAmong (fun key => key=s.key ∨ CalledBack cb globalNames ownNames w s data len key) w
      (valueWritten cb w s data len) := by
  by_cases hn : len=0
  · unfold valueWritten
    rw [if_pos hn]
    exact OnlyAmong.refl _ w
  · exact (OnlyAmong.of_onlyAt (onlyAt_modify (fun _ => rfl) w s.key) (.inl rfl)).trans
      ((notified_among hglobal hown hw hn).mono fun key hk => .inr hk)

/-- So does a set call. -/
theorem set_among {p : Pointer} (hs : w.getByKey s.key=some s) :
    OnlyAmong (fun key => key=s.key ∨ CalledBack cb globalNames ownNames w s (p w) len key) w
      (prvUserSettingsSetFrom env cb w s p len).1 := by
  by_cases hw : Writes s (p w) len
  · have hstored : OnlyAmong
        (fun key => key=s.key ∨ CalledBack cb globalNames ownNames w s (p w) len key) w
        (valueStoredFrom env cb w s p len) :=
      (valueWritten_among hglobal hown hw).trans
        (OnlyAmong.of_onlyAt (onlyAt_saveOne env _ .value s.key _ len) (.inl rfl))
    rw [userSettingsSetFrom_writes hs hw]
    dsimp only
    split
    · exact hstored
    · obtain ⟨t,ht,hr⟩ := getByKey_of_registrations hstored.regs hs
      have hk := key_of_registration hr
      rw [deref_eq ht]
      rw [←hk] at ht
      exact hstored.trans (OnlyAmong.of_onlyAt (onlyAt_flag ht true) (.inl hk))
  · rw [userSettingsSetFrom_keeps hw]
    exact OnlyAmong.refl _ w

end SetCall

mutual

/-- A call of a callback touches what it names. -/
theorem exec_among (env : Env) : ∀ (reaction : Reaction) (w : World),
    OnlyAmong (Names env reaction w) w (Reaction.exec env reaction w)
  | .set target p len onGlobal onOwn,w => by
    unfold Reaction.exec
    cases hf : w.find target with
    | none => exact OnlyAmong.refl _ w
    | some s =>
      refine OnlyAmong.mono (set_among (fun u => execAll_among env onGlobal u)
        (fun u => execAll_among env onOwn u) (getByKey_of_find hf)) fun key hk => ?_
      unfold Names
      exact ⟨s,hf,hk⟩

/-- All calls of a callback touch what they name. -/
theorem execAll_among (env : Env) : ∀ (reactions : List Reaction) (w : World),
    OnlyAmong (NamesAll env reactions w) w (Reaction.execAll env reactions w)
  | [],w => OnlyAmong.refl _ w
  | reaction::rest,w => by
    have hfirst : OnlyAmong (NamesAll env (reaction::rest) w) w (Reaction.exec env reaction w) :=
      (exec_among env reaction w).mono fun key hk => by
        unfold NamesAll
        exact .inl hk
    have hrest : OnlyAmong (NamesAll env (reaction::rest) w) (Reaction.exec env reaction w)
        (Reaction.execAll env rest (Reaction.exec env reaction w)) :=
      (execAll_among env rest _).mono fun key hk => by
        unfold NamesAll
        exact .inr hk
    unfold Reaction.execAll
    exact hfirst.trans hrest

end

/-- A callback of the application touches what it names. -/
theorem react_among (env : Env) (u : World) :
    OnlyAmong (ReactionNames env u) u (env.callbacks.global u) := execAll_among env _ u

/-- A written value stays in its record, unless a callback names the setting. -/
theorem valueWritten_unnamed (hs : w.getByKey s.key=some s) (hw : Writes s data len) (hn : len≠0)
    (hno : ¬CallbackNames env w s (.set data len) s.key) :
    (valueWritten env.callbacks w s data len).getByKey s.key=
      some ((storeValue (bytesAt data len)).apply s) := by
  have hkept : (valueWritten env.callbacks w s data len).getByKey s.key=_ :=
    (notified_among (react_among env) (react_among env) hw hn).record s.key hno
  rw [hkept]
  exact modify_self _ hs

/-- What a call does with the record of its setting touches that setting and
what callbacks name meanwhile. -/
theorem visit_among (hs : w.getByKey s.key=some s) (call : SettingCall) :
    OnlyAmong (fun key => key=s.key ∨ CallbackNames env w s call key) w
      (call.visit env w s) := by
  have hreact := react_among env
  cases call with
  | set data len => exact set_among (p:=fun _ => data) hreact hreact hs
  | setDefault data len => exact OnlyAmong.of_onlyAt (onlyAt_setDefault hs) (.inl rfl)
  | restoreDefault =>
    change OnlyAmong _ w (prvSettingsRestore env env.callbacks w s)
    unfold prvSettingsRestore
    split
    · rename_i hi
      refine (set_among (p:=fun _ => s.defaultData.mem) hreact hreact hs).mono fun key hk => ?_
      exact hk.imp id fun hc => ⟨hi,hc⟩
    · exact OnlyAmong.refl _ w
  | setChanged => exact OnlyAmong.of_onlyAt (onlyAt_flag hs true) (.inl rfl)
  | clearChanged => exact OnlyAmong.of_onlyAt (onlyAt_flag hs false) (.inl rfl)

/-- A call by identifier is the call by key on the same setting. -/
theorem exec_by_id (hs : s∈w.list.items) (call : SettingCall) :
    (call.op (.id s.id)).exec env w=(call.op (.key s.key)).exec env w := by
  have hwith : ∀ {β : Type} (f : UserSetting → β),
      withSetting w (.id s.id) f=withSetting w (.key s.key) f := by
    intro β f
    have hid : w.find (.id s.id)=some s := getById_of_mem hs
    have hkey : w.find (.key s.key)=some s := getByKey_of_mem hs
    unfold withSetting
    rw [hid,hkey]
  cases call with
  | set data len => exact hwith _
  | setDefault data len => exact hwith _
  | restoreDefault => exact hwith _
  | setChanged => exact congrArg (Except.map fun next => (next,0)) (hwith _)
  | clearChanged => exact congrArg (Except.map fun next => (next,0)) (hwith _)

/-- For every state, every registered setting and every call on it, whatever
storage answers and callbacks do: by identifier and by key the call has the
same result (code, records, entries and trace), and it leaves every other
record and every other persistent entry alone, except those of settings named
in calls that callbacks make while it runs. -/
theorem call_acts_on_named (env : Env) {w : World} {s : UserSetting} (hs : s∈w.list.items)
    (call : SettingCall) :
    (call.op (.id s.id)).exec env w=(call.op (.key s.key)).exec env w ∧
      ∀ next ret,(call.op (.key s.key)).exec env w=.ok (next,ret) →
        OnlyAmong (fun key => key=s.key ∨ CallbackNames env w s call key) w next := by
  refine ⟨exec_by_id hs call,fun next ret h => ?_⟩
  have hstep : moveStep env ⟨[],none⟩ w (.call (.key s.key) call)=some next :=
    step_of_ok (call.op (.key s.key)) h
  obtain ⟨_,t,ht,rfl⟩ := moveStep_call.mp hstep
  have hsame : t=s := Option.some.inj (ht.symm.trans (getByKey_of_mem hs))
  rw [hsame]
  exact visit_among (getByKey_of_mem hs) call

/-- Setting the second of two settings, which has no callback: the call by
identifier and the call by key succeed with the same result, the setting is set
and the first one is as it was. -/
theorem call_acts_on_second_setting : ∃ start first s next now,
    boot setsOther twoSettings ∅=.ok start ∧ start.find (.id 1)=some first ∧
    start.find (.id 2)=some s ∧ s.isSet=false ∧
    ((SettingCall.set (memOf [5]) 1).op (.key s.key)).exec setsOther start=.ok (next,0) ∧
    ((SettingCall.set (memOf [5]) 1).op (.id s.id)).exec setsOther start=.ok (next,0) ∧
    next.getByKey s.key=some now ∧ now.isSet=true ∧ now.value=[5] ∧
    next.getByKey first.key=some first := by
  have hrun : (boot setsOther twoSettings ∅).toOption.bind (fun start =>
      (start.find (.id 1)).bind fun first => (start.find (.id 2)).bind fun s =>
        (((SettingCall.set (memOf [5]) 1).op (.key s.key)).exec setsOther start).toOption.bind
          fun r => (r.1.getByKey s.key).map fun now =>
            (decide (first.key=s.key) || s.isSet || start.globalOnChangeCb.isSome ||
              s.onChangeCb.isSome,r.2,now.isSet,now.value))=some (false,0,true,[5]) := by
    decide +kernel
  obtain ⟨start,hstart,hrun⟩ := Option.bind_eq_some_iff.mp hrun
  obtain ⟨first,hfirst,hrun⟩ := Option.bind_eq_some_iff.mp hrun
  obtain ⟨s,hs,hrun⟩ := Option.bind_eq_some_iff.mp hrun
  obtain ⟨⟨next,ret⟩,hnext,hrun⟩ := Option.bind_eq_some_iff.mp hrun
  obtain ⟨now,hnow,hcheck⟩ := Option.map_eq_some_iff.mp hrun
  simp only [Prod.mk.injEq,Bool.or_eq_false_iff] at hcheck
  obtain ⟨⟨⟨⟨hkeys,hunset⟩,hglobal⟩,hown⟩,rfl,hset,hvalue⟩ := hcheck
  have hok := toOption_eq_some.mp hnext
  obtain ⟨hsame,honly⟩ := call_acts_on_named setsOther (getById_some hs).1 (.set (memOf [5]) 1)
  have hkept : next.getByKey first.key=start.getByKey first.key := by
    refine (honly next 0 hok).record first.key ?_
    rintro (hkey|⟨_,_,⟨hcall,_⟩|⟨hcall,_⟩⟩)
    · exact of_decide_eq_false hkeys hkey
    · rw [show (start.modify s.key _).globalOnChangeCb=start.globalOnChangeCb from rfl,
        hglobal] at hcall
      cases hcall
    · rw [hown] at hcall
      cases hcall
  exact ⟨start,first,s,next,now,toOption_eq_some.mp hstart,hfirst,hs,hunset,hok,
    hsame.trans hok,hnow,hset,hvalue,hkept.trans (getByKey_of_find hfirst)⟩

/-- The second setting is touched by that call. -/
theorem callback_touches_other :
    ¬∀ (env : Env) (setup : Setup) (nvs : Entries) (w : World),Reachable env setup nvs w →
      ∀ s∈w.list.items,∀ (call : SettingCall) (next : World) (ret : ℤ),
        (call.op (.key s.key)).exec env w=.ok (next,ret) → OnlyAt s.key w next := by
  intro h
  have hrun : (boot setsOther twoSettings ∅).toOption.bind (fun start =>
      (start.getByKey keyA).bind fun s => (start.find (.id 2)).bind fun other =>
        (((SettingCall.set (memOf [5]) 1).op (.key s.key)).exec setsOther start).toOption.map
          fun r => (decide (other.key=s.key),other.isSet,
            (r.1.getByKey other.key).map UserSetting.isSet))=
      some (false,false,some true) := by decide +kernel
  obtain ⟨start,hstart,hrun⟩ := Option.bind_eq_some_iff.mp hrun
  obtain ⟨s,hs,hrun⟩ := Option.bind_eq_some_iff.mp hrun
  obtain ⟨other,hother,hrun⟩ := Option.bind_eq_some_iff.mp hrun
  obtain ⟨⟨next,ret⟩,hnext,hcheck⟩ := Option.map_eq_some_iff.mp hrun
  simp only [Prod.mk.injEq] at hcheck
  obtain ⟨hne,hbefore,hafter⟩ := hcheck
  have hreach : Reachable setsOther twoSettings ∅ start :=
    ⟨start,[],toOption_eq_some.mp hstart,rfl⟩
  have honly := h setsOther twoSettings ∅ start hreach s (getByKey_some hs).1
    (.set (memOf [5]) 1) next ret (toOption_eq_some.mp hnext)
  rw [honly.record other.key (of_decide_eq_false hne),getByKey_of_find hother,Option.map_some,
    hbefore] at hafter
  exact absurd hafter (by decide)

end UserSettings.Addressing
