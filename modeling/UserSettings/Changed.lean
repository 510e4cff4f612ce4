import UserSettings.Export
import UserSettings.Iteration
import UserSettings.Lifecycle
import UserSettings.Moves
import UserSettings.Reload
import UserSettings.Success
import UserSettings.Visits

/-!
# The changed flag

With storage that does not fail and callbacks that only look, the flag of a
setting tells in RAM and in storage whether something marked it since it was
last cleared: an explicit mark, or a success of a set call or a restore with
another value. The three ways to ask for flagged settings give the same
answer.
-/

namespace UserSettings.Changed

open Bytes Settings Storage Store Effects Setters Reactions Load Operations Transition
open Records Cells Outcomes Json Export Iteration Reload Moves Lifecycle Visits Durability

/-- The flag of a setting in RAM. -/
def hasChanged (w : World) (key : CString) : Prop := ram w (.changed,key)=some [1]

/-- A move is a call on the setting with this key that has a property. -/
def OnSetting (key : CString) (P : Target → UserSetting → SettingCall → Prop) (w : World) :
    Move → Prop
  | .call target call => ∃ s,w.find target=some s ∧ s.key=key ∧ P target s call
  | .load | .reboot => False

/-- A move marks the setting as changed: explicitly, or by a call that sets
other bytes and returns success. Which restores count is left open. -/
def Marks (restores : UserSetting → Prop) (env : Env) (key : CString) (w : World) : Move → Prop :=
  OnSetting key (fun target s call =>
    match call with
    | .set data len =>
      (∃ next,userSettingsSet env w target data len=.ok (next,0)) ∧ bytesAt data len≠s.value
    | .restoreDefault =>
      (∃ next,userSettingsRestoreDefault env w target=.ok (next,0)) ∧
        s.defaultValue≠s.value ∧ restores s
    | .setChanged => True
    | .setDefault _ _ | .clearChanged => False) w

/-- A move clears the flag of the setting. -/
def Clears (key : CString) (w : World) : Move → Prop :=
  OnSetting key (fun _ _ call =>
    match call with
    | .clearChanged => True
    | .set _ _ | .setDefault _ _ | .restoreDefault | .setChanged => False) w

/-- A restore has something to do: the setting is set and accepts its default. -/
def Restorable (s : UserSetting) : Prop :=
  s.isSet=true ∧ s.validates s.defaultData.mem s.defaultDataLen=true

variable {env : Env} {setup : Setup} {w next : World} {s : UserSetting} {data : Mem} {len : ℕ}

/-- The flag of a found record. -/
theorem hasChanged_iff (hs : w.getByKey s.key=some s) :
    hasChanged w s.key ↔ s.hasChangedRecently=true := Success.ram_changed_iff hs

section Saved

variable (hsave : ∀ n,env.saveResult n=0) (hq : Passive env.callbacks)

include hsave hq

/-- A set call succeeds with other bytes exactly when it writes. -/
theorem set_succeeds_iff (hok : RecordOk s) (hs : w.getByKey s.key=some s) :
    ((prvUserSettingsSet env env.callbacks w s data len).2=0 ∧ bytesAt data len≠s.value) ↔
      Writes s data len := by
  constructor
  · rintro ⟨hret,hne⟩
    have hd : ¬SameValue s data len := fun h => hne ((sameValue_iff hok).mp h)
    by_contra hw
    rw [userSettingsSet_keeps hw,if_neg hd] at hret
    dsimp only at hret
    split at hret <;> cases hret
  · intro hw
    exact ⟨set_ret hsave hq hs hw,fun h => hw.differs ((sameValue_iff hok).mpr h)⟩

/-- The flag after a set call. -/
theorem hasChanged_set (hs : w.getByKey s.key=some s) :
    hasChanged (prvUserSettingsSet env env.callbacks w s data len).1 s.key ↔
      Writes s data len ∨ s.hasChangedRecently=true := by
  by_cases hw : Writes s data len
  · have hrec := set_record env hq hs hw
    rw [decide_eq_true (hsave _),Bool.or_true] at hrec
    unfold hasChanged
    rw [ram_eq hrec]
    exact ⟨fun _ => .inl hw,fun _ => rfl⟩
  · rw [userSettingsSet_keeps hw,hasChanged_iff hs]
    exact ⟨.inr,fun h => h.resolve_left hw⟩

/-- Both copies of the flag agree after a set call. -/
theorem agree_set (hs : w.getByKey s.key=some s)
    (ha : ram w (.changed,s.key)=stored w (.changed,s.key)) :
    ram (prvUserSettingsSet env env.callbacks w s data len).1 (.changed,s.key)=
      stored (prvUserSettingsSet env env.callbacks w s data len).1 (.changed,s.key) := by
  by_cases hw : Writes s data len
  · have hout := set_outcome env hq hs hw
    revert hout
    generalize ram (prvUserSettingsSet env env.callbacks w s data len).1=f
    generalize stored (prvUserSettingsSet env env.callbacks w s data len).1=g
    generalize (prvUserSettingsSet env env.callbacks w s data len).2=ret
    intro hout
    cases hout with
    | valueUnsaved hv => exact absurd (hsave _) hv
    | flagged =>
      rw [ramSet_changed,storedSet_changed]
      exact ha
    | flagUnsaved _ _ hf => exact absurd (hsave _) hf
    | saved => rw [Function.update_self,Function.update_self]
  · rw [userSettingsSet_keeps hw]
    exact ha

end Saved

/-- Both copies of the flag agree after setting it. -/
theorem agree_flag (hsave : ∀ n,env.saveResult n=0) (hs : w.getByKey s.key=some s)
    (ha : ram w (.changed,s.key)=stored w (.changed,s.key)) (flag : Bool) :
    ram (prvSetChangedRecentlyFlag env env.callbacks w s flag).1 (.changed,s.key)=
      stored (prvSetChangedRecentlyFlag env env.callbacks w s flag).1 (.changed,s.key) := by
  have hcells : ram (prvSetChangedRecentlyFlag env env.callbacks w s flag).1=_ ∧
      stored (prvSetChangedRecentlyFlag env env.callbacks w s flag).1=_ := flag_cells hs flag
  obtain ⟨hram,hstored⟩ := hcells
  rw [hram,hstored,Function.update_self]
  by_cases hf : flag=s.hasChangedRecently
  · have hsame : ram w (.changed,s.key)=flagContent flag := by
      rw [ram_eq hs,hf]
      rfl
    rw [if_pos (.inl hf),←ha,hsame]
  · have hno : ¬(flag=s.hasChangedRecently ∨ env.saveResult w.saves≠0) :=
      fun h => h.elim hf (fun k => k (hsave _))
    rw [if_neg hno,Function.update_self]

/-- A restore that does something is a set call with the default value. -/
theorem restorable_iff (hok : RecordOk s) :
    (s.defaultValue≠s.value ∧ Restorable s) ↔
      s.isSet=true ∧ Writes s s.defaultData.mem s.defaultDataLen := by
  have hbytes : bytesAt s.defaultData.mem s.defaultDataLen=s.defaultValue :=
    s.defaultData.bytesAt_mem hok.default.len_le
  constructor
  · rintro ⟨hne,hset,hv⟩
    refine ⟨hset,hok.default.len_le,fun h => ?_,hv⟩
    exact hne (hbytes.symm.trans ((sameValue_iff hok).mp h))
  · rintro ⟨hset,hw⟩
    refine ⟨fun h => hw.differs ?_,hset,hw.valid⟩
    exact (sameValue_iff hok).mpr (hbytes.trans h)

/-- A call on a found setting. -/
theorem onSetting_iff {key : CString} {P : Target → UserSetting → SettingCall → Prop}
    {target : Target} {call : SettingCall} (hs : w.find target=some s) :
    OnSetting key P w (.call target call) ↔ s.key=key ∧ P target s call := by
  constructor
  · rintro ⟨t,ht,hkey,hp⟩
    cases hs.symm.trans ht
    exact ⟨hkey,hp⟩
  · exact fun h => ⟨s,hs,h⟩

/-- A public function on a found setting succeeds exactly when its part does. -/
theorem withSetting_zero_iff {target : Target} {f : UserSetting → World×ℤ}
    (hl : w.isLoaded=true) (hs : w.find target=some s) :
    (∃ next,withSetting w target f=.ok (next,0)) ↔ (f s).2=0 := by
  rw [withSetting_eq hl hs]
  constructor
  · rintro ⟨next,h⟩
    rw [Except.ok.inj h]
  · exact fun h => ⟨(f s).1,by rw [←h]⟩

/-- What holds of a device at every point of a run: it runs, and both copies
of all flags agree. -/
structure Steady (setup : Setup) (w : World) : Prop where
  /-- The device runs. -/
  running : Running setup w
  /-- The flags in RAM are those in storage. -/
  agree : ∀ key,ram w (.changed,key)=stored w (.changed,key)

/-- A start leads to a steady device. -/
theorem steady_of_booted (h : Booted setup w next) : Steady setup next :=
  ⟨running_of_booted h,fun _ => congrFun (booted_ram h) _⟩

section Steps

variable (hsave : ∀ n,env.saveResult n=0) (hq : Passive env.callbacks)

include hsave hq

/-- The flag of the setting that a call is made on. -/
theorem hasChanged_visit {target : Target} (call : SettingCall) (hl : w.isLoaded=true)
    (hok : RecordOk s) (hs : w.find target=some s) :
    hasChanged (call.visit env w s) s.key ↔
      Marks Restorable env s.key w (.call target call) ∨
        (hasChanged w s.key ∧ ¬Clears s.key w (.call target call)) := by
  have hfound := getByKey_of_find hs
  unfold Marks Clears
  rw [onSetting_iff hs,onSetting_iff hs,hasChanged_iff hfound]
  cases call with
  | set data len =>
    dsimp only
    unfold userSettingsSet
    rw [withSetting_zero_iff hl hs,set_succeeds_iff hsave hq hok hfound]
    change hasChanged (prvUserSettingsSet env env.callbacks w s data len).1 s.key ↔ _
    rw [hasChanged_set hsave hq hfound]
    simp
  | setDefault data len =>
    have hsame : CellsUntouched .changed w
        (prvUserSettingsSetDefault env env.callbacks w s data len).1 :=
      untouched_setDefault (by decide) hfound
    have hflag := hsame.inRam s.key
    change ram (prvUserSettingsSetDefault env env.callbacks w s data len).1 (.changed,s.key)=
      some [1] ↔ _
    rw [hflag]
    exact (hasChanged_iff hfound).trans (by simp)
  | restoreDefault =>
    dsimp only
    unfold userSettingsRestoreDefault
    rw [withSetting_zero_iff hl hs,restorable_iff hok]
    change hasChanged (prvSettingsRestore env env.callbacks w s) s.key ↔ _
    unfold prvSettingsRestore
    split
    · rename_i hset
      rw [hasChanged_set hsave hq hfound]
      simp [hset]
    · rename_i hset
      rw [hasChanged_iff hfound]
      simp [hset]
  | setChanged =>
    have hrec : (prvSetChangedRecentlyFlag env env.callbacks w s true).1.getByKey s.key=_ :=
      flag_record hfound true
    change ram (prvSetChangedRecentlyFlag env env.callbacks w s true).1 (.changed,s.key)=
      some [1] ↔ _
    rw [ram_eq hrec]
    simp [content,storeFlag,flagContent]
  | clearChanged =>
    have hrec : (prvSetChangedRecentlyFlag env env.callbacks w s false).1.getByKey s.key=_ :=
      flag_record hfound false
    change ram (prvSetChangedRecentlyFlag env env.callbacks w s false).1 (.changed,s.key)=
      some [1] ↔ _
    rw [ram_eq hrec]
    simp [content,storeFlag,flagContent]

/-- Both copies of the flag agree after a call on the setting. -/
theorem agree_visit (call : SettingCall) (hs : w.getByKey s.key=some s)
    (ha : ram w (.changed,s.key)=stored w (.changed,s.key)) :
    ram (call.visit env w s) (.changed,s.key)=stored (call.visit env w s) (.changed,s.key) := by
  cases call with
  | set data len => exact agree_set hsave hq hs ha
  | setDefault data len =>
    have hsame : CellsUntouched .changed w
        (prvUserSettingsSetDefault env env.callbacks w s data len).1 :=
      untouched_setDefault (by decide) hs
    exact ((hsame.inRam s.key).trans ha).trans (hsame.inStorage s.key).symm
  | restoreDefault =>
    change ram (prvSettingsRestore env env.callbacks w s) (.changed,s.key)=
      stored (prvSettingsRestore env env.callbacks w s) (.changed,s.key)
    unfold prvSettingsRestore
    split
    · exact agree_set hsave hq hs ha
    · exact ha
  | setChanged => exact agree_flag hsave hs ha true
  | clearChanged => exact agree_flag hsave hs ha false

/-- Every move keeps a device steady. -/
theorem steady_step {move : Move} (hw : Steady setup w)
    (h : moveStep env setup w move=some next) : Steady setup next := by
  cases move with
  | call target call =>
    have heff := call_effects h
    obtain ⟨_,s,hs,rfl⟩ := moveStep_call.mp h
    have hfound := getByKey_of_find hs
    have honly : OnlyAt s.key w (call.visit env w s) := visit_onlyAt hq _ hfound
    refine ⟨hw.running.effects heff,fun key => ?_⟩
    by_cases hk : key=s.key
    · subst hk
      exact agree_visit hsave hq call hfound (hw.agree s.key)
    · obtain ⟨hram,hstored⟩ := honly.cells (.changed,key) hk
      rw [hram,hstored]
      exact hw.agree key
  | load =>
    obtain ⟨⟨loaded,ret⟩,hrun,rfl⟩ := Option.map_eq_some_iff.mp h
    have hok := toOption_eq_some.mp hrun
    have hsame : CellsUntouched .changed w loaded := untouched_load (by decide)
      (sparing_of_passive hq) hw.running.isLoaded hw.agree hok
    refine ⟨⟨hsame.setup.regs.trans hw.running.regs,
      hsame.setup.isLoaded.trans hw.running.isLoaded,recordOk_load hw.running.records hok⟩,?_⟩
    exact fun key => ((hsame.inRam key).trans (hw.agree key)).trans (hsame.inStorage key).symm
  | reboot => exact steady_of_booted (reboot_ok (toOption_eq_some.mp h))

/-- Every move keeps the flag of a setting in line with marks and clears. -/
theorem flag_step {key : CString} {move : Move} (hw : Steady setup w)
    (h : moveStep env setup w move=some next) :
    hasChanged next key ↔
      Marks Restorable env key w move ∨ (hasChanged w key ∧ ¬Clears key w move) := by
  have hquiet : ∀ {m : Move},¬Marks Restorable env key w m → ¬Clears key w m →
      ram next (.changed,key)=ram w (.changed,key) →
      (hasChanged next key ↔
        Marks Restorable env key w m ∨ (hasChanged w key ∧ ¬Clears key w m)) := by
    intro m hm hc hflag
    unfold hasChanged
    rw [hflag]
    exact ⟨fun hf => .inr ⟨hf,hc⟩,fun hf => (hf.resolve_left hm).1⟩
  cases move with
  | call target call =>
    obtain ⟨hl,s,hs,rfl⟩ := moveStep_call.mp h
    have hfound := getByKey_of_find hs
    by_cases hk : s.key=key
    · subst hk
      exact hasChanged_visit hsave hq call hl (hw.running.records s (getByKey_some hfound).1) hs
    · have honly : OnlyAt s.key w (call.visit env w s) := visit_onlyAt hq _ hfound
      refine hquiet ?_ ?_ (honly.cells (.changed,key) (Ne.symm hk)).1
      · exact fun hm => hk ((onSetting_iff hs).mp hm).1
      · exact fun hc => hk ((onSetting_iff hs).mp hc).1
  | load =>
    obtain ⟨⟨loaded,ret⟩,hrun,rfl⟩ := Option.map_eq_some_iff.mp h
    have hsame : CellsUntouched .changed w loaded := untouched_load (by decide)
      (sparing_of_passive hq) hw.running.isLoaded hw.agree (toOption_eq_some.mp hrun)
    exact hquiet id id (hsame.inRam key)
  | reboot =>
    have hb := reboot_ok (toOption_eq_some.mp h)
    refine hquiet id id ?_
    rw [booted_ram hb,booted_stored hb hw.running.regs]
    exact (hw.agree key).symm

end Steps

/-- The settings that are marked as changed, in registration order. -/
def flagged (w : World) : List UserSetting := w.list.items.filter UserSetting.hasChangedRecently

/-- All ways to ask for changed settings report the flagged ones. -/
structure Reports (w : World) : Prop where
  /-- Whether there is one. -/
  any : userSettingsAnyChanged w.list=true ↔ flagged w≠[]
  /-- One after another, and then none any more. -/
  iter : ∀ n,results (userSettingsIterNextChanged w.list) n userSettingsListIterStart=
    (List.range n).map fun i => ((flagged w).map fun s => (s.key,s.id))[i]?
  /-- As members of an object, if their texts have ends. -/
  json : ∀ stack,(∀ s∈flagged w,Terminated stack s) →
    ∃ object,userSettingsGetChangedJson stack w=.ok object ∧
      object.children.map CJson.string=(flagged w).map fun s => some s.key

/-- All reports agree in every state. -/
theorem reports (w : World) : Reports w := by
  refine ⟨?_,results_nextChanged w.list,fun stack h => ?_⟩
  · unfold flagged
    rw [anyChanged_eq,List.any_eq_true,Ne,List.filter_eq_nil_iff]
    simp
  · obtain ⟨members,hm,hobject⟩ := jsonObject_ok h
    exact ⟨_,hobject,member_names hm⟩

/-- For every run of calls, imports, commands of the binary protocol and of
the shell, repeated loads and reboots of a device that may hold any entries at
its first start, storage not failing and callbacks only looking: the run is a
run of calls on single settings, loads and reboots. After any number of these
a flag is true exactly when since the last clear of the setting something
marked it, or nothing cleared it and it was true at the start. The stored flag
is the same, and all reports give the flagged settings. -/
theorem changed_flag_exact (env : Env) (hsave : ∀ n,env.saveResult n=0)
    (hq : ∀ n,env.react n=[]) (setup : Setup) (nvs : Entries) (start final : World)
    (actions : List Action) (hboot : boot env setup nvs=.ok start)
    (hrun : run (actionStep env setup) start actions=some final) :
    run (moveStep env setup) start (allMoves env setup start actions)=some final ∧
      ∀ moves middle,moves<+:allMoves env setup start actions →
        run (moveStep env setup) start moves=some middle →
        (∀ s∈middle.list.items,
          (s.hasChangedRecently=true ↔
            Since (moveStep env setup) (Marks Restorable env s.key) (Clears s.key) start moves ∨
              (hasChanged start s.key ∧
                Meets (moveStep env setup) (fun w move => ¬Clears s.key w move) start moves)) ∧
          stored middle (.changed,s.key)=flagContent s.hasChangedRecently) ∧
        Reports middle := by
  have hpassive := passive_callbacks hq
  have hstart : Steady setup start := steady_of_booted (reboot_ok hboot)
  refine ⟨run_allMoves hrun,fun moves middle _ hmiddle => ⟨fun s hs => ?_,reports middle⟩⟩
  have hfound : middle.getByKey s.key=some s := getByKey_of_mem hs
  have hsteady : Steady setup middle :=
    run_invariant_always (fun _ _ _ hw => steady_step hsave hpassive hw) hstart hmiddle
  refine ⟨?_,?_⟩
  · rw [←hasChanged_iff hfound]
    exact flag_iff_since (fun w => hasChanged w s.key)
      (fun _ _ _ hw => steady_step hsave hpassive hw)
      (fun _ _ _ hw => flag_step hsave hpassive hw) hstart hmiddle
  · rw [←hsteady.agree,ram_eq hfound]
    rfl

/-- A setting is marked, cleared by the shell and restored after a reboot. -/
theorem changed_flag_on_device :
    let setup : Setup := device .u8 0 none none
    let actions : List Action := [.device (.store (.set (.key keyA) (memOf [5]) 1)),
      .shell (fun _ => 0) .clearChanged,.device .reboot,.load,
      .device (.store (.restoreDefault (.key keyA)))]
    ∃ start final,boot calm setup ∅=.ok start ∧
      run (actionStep calm setup) start actions=some final ∧
      run (moveStep calm setup) start (allMoves calm setup start actions)=some final :=
  ⟨_,_,rfl,rfl,(changed_flag_exact calm (fun _ => rfl) (fun _ => rfl) (device .u8 0 none none) ∅
    _ _ [.device (.store (.set (.key keyA) (memOf [5]) 1)),.shell (fun _ => 0) .clearChanged,
      .device .reboot,.load,.device (.store (.restoreDefault (.key keyA)))] rfl rfl).1⟩

/-- Restoring a setting that is not set returns success although its default
differs from the value that is not there, and does not mark it. -/
theorem unset_restore_not_marked :
    ¬∀ (env : Env) (setup : Setup) (start final : World) (moves : List Move),
      (∀ n,env.saveResult n=0) → (∀ n,env.react n=[]) → boot env setup ∅=.ok start →
      run (moveStep env setup) start moves=some final → ∀ s∈final.list.items,
        (s.hasChangedRecently=true ↔
          Since (moveStep env setup) (Marks (fun _ => True) env s.key) (Clears s.key) start
            moves) := by
  intro h
  let setup : Setup := device .u8 0 none none
  let first : Move := .call (.key keyA) (.setDefault (memOf [7]) 1)
  let second : Move := .call (.key keyA) .restoreDefault
  have hdevice : ∃ start middle final t s,boot calm setup ∅=.ok start ∧
      moveStep calm setup start first=some middle ∧
      moveStep calm setup middle second=some final ∧
      middle.find (.key keyA)=some t ∧ t.key=keyA ∧ t.defaultValue=[7] ∧ t.value=[] ∧
      (∃ next,userSettingsRestoreDefault calm middle (.key keyA)=.ok (next,0)) ∧
      final.list.items=[s] ∧ s.key=keyA ∧ s.hasChangedRecently=false :=
    ⟨_,_,_,_,_,rfl,rfl,rfl,rfl,rfl,rfl,rfl,⟨_,rfl⟩,rfl,rfl,rfl⟩
  obtain ⟨start,middle,final,t,s,hboot,hfirst,hsecond,ht,hkey,hdefault,hvalue,hret,hitems,hs,
    hflag⟩ := hdevice
  have hrun : run (moveStep calm setup) start [first,second]=some final :=
    run_cons.mpr ⟨middle,hfirst,run_single hsecond⟩
  have hmem : s∈final.list.items := by
    rw [hitems]
    exact List.mem_singleton.mpr rfl
  have hmark : Marks (fun _ => True) calm keyA middle second := by
    refine ⟨t,ht,hkey,hret,?_,trivial⟩
    rw [hdefault,hvalue]
    exact List.cons_ne_nil 7 []
  have hsince : Since (moveStep calm setup) (Marks (fun _ => True) calm s.key) (Clears s.key)
      start [first,second] := by
    rw [hs]
    exact ⟨[first],second,[],middle,final,rfl,run_single hfirst,hmark,hsecond,trivial⟩
  have hclaim := h calm setup start final [first,second] (fun _ => rfl) (fun _ => rfl) hboot hrun
    s hmem
  rw [hflag] at hclaim
  cases hclaim.mpr hsince

end UserSettings.Changed
