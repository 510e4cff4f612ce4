import UserSettings.Durability
import UserSettings.Lifecycle
import UserSettings.Moves
import UserSettings.Reload
import UserSettings.Visits

/-!
# Default values are written once

Unless defaults may be overwritten, a default value stays what it is once it
was set: calls refuse another one, callbacks and other calls do not touch it,
and starts and repeated loads find it in storage as it is in RAM.
-/

namespace UserSettings.WriteOnce

open Bytes Settings Storage Store Effects Setters Reactions Load Operations Transition
open Records Cells Outcomes Binary Executor Commands Reload Moves Lifecycle Visits Durability

/-- The default value that a getter returns. -/
def getDefault (w : World) (key : CString) : Option (List UInt8) :=
  match userSettingsGetDefault w (.key key) with
  | .error _ => none
  | .ok found => found.map fun p => bytesAt p.1 p.2

/-- Whatever tries to set the default value of a setting, the state stays as
it is, and the answer says whether the bytes are those that it has. -/
structure Fixed (env : Env) (w : World) (key : CString) (bytes : List UInt8) : Prop where
  /-- Through the application's calls, by key or by identifier. -/
  call : ∀ target s data len,w.find target=some s → s.key=key →
    userSettingsSetDefault env w target data len=
      .ok (w,if bytesAt data len=bytes then 0 else -eAlready)
  /-- Through a SET_DEFAULT command. -/
  command : ∀ (st : ExecState) respBufferLen writeResponse (buffer : Mem) (len : UInt32) s,
    st.world=w → commandType? (buffer 0)=some .setDefault → 5 ≤ len.toNat →
    w.find (.id (word16 buffer 1))=some s → s.key=key →
    uspExecutorParseAndExecute env (binaryExecutor respBufferLen writeResponse) st buffer len=
      .ok (st,if bytesAt (behind buffer 4) (buffer 3).toNat=bytes then 0 else -eNoExec)
  /-- Through the shell. -/
  shell : ∀ (stack : Mem) (value : CString) s text,w.getByKey key=some s →
    shellBytes env.charIsSigned s.type value=.ok text →
    cmdSetDefault env stack w key value=.ok (w,if text=bytes then 0 else -eAlready)

variable {env : Env} {setup : Setup} {cb : Callbacks} {w next : World} {s : UserSetting}
  {key : CString} {data : Mem} {len : ℕ} {bytes : List UInt8}

/-- The default value that a getter returns is the cell in RAM. -/
theorem getDefault_eq (hl : w.isLoaded=true) (hok : AllRecords RecordOk w) :
    getDefault w key=ram w (.default,key) := by
  unfold getDefault userSettingsGetDefault withSetting
  rw [if_pos hl]
  unfold ram
  cases hs : w.getByKey key with
  | none =>
    have hf : w.find (.key key)=none := hs
    rw [hf]
  | some s =>
    have hf : w.find (.key key)=some s := hs
    have hbytes : bytesAt s.defaultData.mem s.defaultDataLen=s.defaultValue :=
      s.defaultData.bytesAt_mem (hok.getByKey hs).default.len_le
    rw [hf]
    dsimp only [prvUserSettingGetDefault,content]
    split
    · exact congrArg some hbytes
    · rfl

/-- A SET_DEFAULT command of at least five bytes is decoded and executed. -/
theorem execute_setDefault (env : Env) (st : ExecState) (respBufferLen : ℕ)
    (writeResponse : List (List UInt8) → List UInt8 → ℤ) {buffer : Mem} {len : UInt32}
    (ht : commandType? (buffer 0)=some .setDefault) (h5 : 5 ≤ len.toNat) :
    uspExecutorParseAndExecute env (binaryExecutor respBufferLen writeResponse) st buffer len=
      prvExecSetDefault env st (word16 buffer 1)
        ((Buffer.zero valueSize).write (bytesAt (behind buffer 4) (buffer 3).toNat)).mem
        (buffer 3) := by
  have hlt : ¬len<5 := fun h => by
    have hn : len.toNat<5 := UInt32.lt_iff_toNat_lt.mp h
    omega
  have hz : len≠0 := fun h => hlt (by rw [h]; decide)
  have hdecode : userSettingsProtocolBinaryDecodeCommand buffer len=
      decodeValue buffer len {UserSettingsProtocolCommand.zero with type := buffer 0} := by
    unfold userSettingsProtocolBinaryDecodeCommand
    rw [if_neg hz]
    dsimp only
    rw [ht]
  have hbyte : (buffer 3).toNat<valueSize := (buffer 3).toNat_lt
  have hwrites : (List.range (buffer 3).toNat).any (fun i => decide (valueSize ≤ i))=false := by
    rw [List.any_eq_false]
    intro i hi
    have hlt' := List.mem_range.mp hi
    simp only [decide_eq_true_eq]
    omega
  have hret : ¬(4+((buffer 3).toNat : ℤ))<0 := by omega
  unfold decodeValue at hdecode
  rw [if_neg hlt] at hdecode
  unfold uspExecutorParseAndExecute
  dsimp only [binaryExecutor]
  rw [hdecode]
  dsimp only
  rw [hwrites,if_neg Bool.false_ne_true,if_neg hret,ht]
  rfl

section Locked

variable (ho : env.defaultOverwrite=false)

include ho

/-- A call on a setting with a default value changes nothing. -/
theorem setDefault_fixed (hok : RecordOk s) (hd : content s .default=some bytes) :
    prvUserSettingsSetDefault env cb w s data len=
      (w,if bytesAt data len=bytes then 0 else -eAlready) := by
  have hset : s.defaultIsSet=true := by
    by_contra hn
    dsimp only [content] at hd
    rw [if_neg hn] at hd
    cases hd
  have hvalue : s.defaultValue=bytes := by
    dsimp only [content] at hd
    rw [if_pos hset] at hd
    exact Option.some.inj hd
  have hlocked : (!env.defaultOverwrite && s.defaultIsSet)=true := by
    rw [ho,hset]
    rfl
  have hno : ¬WritesDefault env s data len := fun hw => (locked_iff env s).mp hlocked hw.unlocked
  rw [userSettingsSetDefault_keeps hno,if_pos hlocked]
  congr 1
  by_cases hb : bytesAt data len=bytes
  · rw [if_pos hb,if_pos ((sameDefault_iff hok).mpr (hb.trans hvalue.symm))]
  · rw [if_neg hb,if_neg fun h => hb (((sameDefault_iff hok).mp h).trans hvalue)]

/-- A set_default call on a setting with a default value. -/
theorem userSettingsSetDefault_fixed {target : Target} (hl : w.isLoaded=true)
    (hok : AllRecords RecordOk w) (hram : ram w (.default,key)=some bytes)
    (hs : w.find target=some s) (hk : s.key=key) :
    userSettingsSetDefault env w target data len=
      .ok (w,if bytesAt data len=bytes then 0 else -eAlready) := by
  have hfound := getByKey_of_find hs
  have hd : content s .default=some bytes := by
    rw [←ram_eq hfound,hk]
    exact hram
  unfold userSettingsSetDefault
  rw [withSetting_eq hl hs,setDefault_fixed ho (hok s (getByKey_some hfound).1) hd]

/-- A default value in RAM is fixed for all calls, commands and the shell. -/
theorem fixed_of_ram (hl : w.isLoaded=true) (hok : AllRecords RecordOk w)
    (hram : ram w (.default,key)=some bytes) : Fixed env w key bytes := by
  have hcall : ∀ target s data len,w.find target=some s → s.key=key →
      userSettingsSetDefault env w target data len=
        .ok (w,if bytesAt data len=bytes then 0 else -eAlready) :=
    fun _ _ _ _ hs hk => userSettingsSetDefault_fixed ho hl hok hram hs hk
  refine ⟨hcall,?_,?_⟩
  · intro st respBufferLen writeResponse buffer len s hw ht h5 hs hk
    subst hw
    have hfits : (bytesAt (behind buffer 4) (buffer 3).toNat).length ≤ valueSize := by
      have hbyte : (buffer 3).toNat<valueSize := (buffer 3).toNat_lt
      rw [length_bytesAt]
      omega
    have hread : bytesAt ((Buffer.zero valueSize).write
        (bytesAt (behind buffer 4) (buffer 3).toNat)).mem (buffer 3).toNat=
        bytesAt (behind buffer 4) (buffer 3).toNat := by
      have htake : ((Buffer.zero valueSize).write
          (bytesAt (behind buffer 4) (buffer 3).toNat)).bytes.take
          (bytesAt (behind buffer 4) (buffer 3).toNat).length=_ := Buffer.take_write hfits
      rw [length_bytesAt] at hfits htake
      rw [Buffer.bytesAt_mem _ hfits,htake]
    have hexists : userSettingsExists st.world (.id (word16 buffer 1))=.ok true := by
      unfold userSettingsExists
      rw [if_pos hl,hs]
      rfl
    have hset : userSettingsSetDefaultWithId env st.world (word16 buffer 1)
        ((Buffer.zero valueSize).write (bytesAt (behind buffer 4) (buffer 3).toNat)).mem
        (buffer 3).toNat=
        .ok (st.world,
          if bytesAt (behind buffer 4) (buffer 3).toNat=bytes then 0 else -eAlready) := by
      unfold userSettingsSetDefaultWithId
      rw [hcall _ s _ _ hs hk,hread]
    rw [execute_setDefault env st respBufferLen writeResponse ht h5]
    unfold prvExecSetDefault
    rw [hexists]
    dsimp only [bind,Except.bind]
    rw [if_pos rfl,hset]
    dsimp only
    split <;> rfl
  · intro stack value s text hs ht
    have hkey : s.key=key := key_of_getByKey hs
    have hlist : userSettingsListGetByKey w.list key=some s := hs
    unfold cmdSetDefault withName prvSetHelper
    rw [hlist]
    dsimp only
    rw [ht]
    change userSettingsSetDefault env w (.key s.key) (stack.write 0 text) text.length=_
    rw [hcall (.key s.key) s _ _ (by rw [hkey]; exact hs) hkey,bytesAt_write_zero]

end Locked

/-- What holds of a device at every point of a run: it runs, and both copies
of all default values agree. -/
structure Kept (setup : Setup) (w : World) : Prop where
  /-- The device runs. -/
  running : Running setup w
  /-- The default values in RAM are those in storage. -/
  agree : ∀ key,ram w (.default,key)=stored w (.default,key)

/-- A start leads to such a device. -/
theorem kept_of_booted (h : Booted setup w next) : Kept setup next :=
  ⟨running_of_booted h,fun _ => congrFun (booted_ram h) _⟩

/-- Untouched default values stay as they are. -/
theorem kept_of_untouched (h : CellsUntouched .default w next) (hrun : Running setup next)
    (hw : Kept setup w) : Kept setup next ∧
      ∀ key bytes,ram w (.default,key)=some bytes → ram next (.default,key)=some bytes := by
  refine ⟨⟨hrun,fun key => ?_⟩,fun key bytes hb => (h.inRam key).trans hb⟩
  exact ((h.inRam key).trans (hw.agree key)).trans (h.inStorage key).symm

section Saved

variable (ho : env.defaultOverwrite=false) (hsave : ∀ n,env.saveResult n=0)

include ho hsave

/-- A set_default call writes both copies, and only where there was nothing. -/
theorem kept_setDefault (hw : Kept setup w) (hs : w.getByKey s.key=some s)
    (hrun : Running setup (prvUserSettingsSetDefault env env.callbacks w s data len).1) :
    Kept setup (prvUserSettingsSetDefault env env.callbacks w s data len).1 ∧
      ∀ key bytes,ram w (.default,key)=some bytes →
        ram (prvUserSettingsSetDefault env env.callbacks w s data len).1 (.default,key)=
          some bytes := by
  have hok : RecordOk s := hw.running.records s (getByKey_some hs).1
  by_cases hwrites : WritesDefault env s data len
  · have hunset : s.defaultIsSet=false := by
      rcases hwrites.unlocked with h|h
      · rw [ho] at h
        cases h
      · exact h
    have hn : len≠0 := by
      rintro rfl
      refine hwrites.differs ((sameDefault_iff hok).mpr ?_)
      rw [bytesAt_zero,eq_comm,←List.length_eq_zero_iff,length_defaultValue hok]
      exact hok.default.len_eq_zero hunset
    have hcells : ram (prvUserSettingsSetDefault env env.callbacks w s data len).1=_ ∧
        stored (prvUserSettingsSetDefault env env.callbacks w s data len).1=_ :=
      setDefault_cells hs hwrites hn
    obtain ⟨hram,hstored⟩ := hcells
    rw [if_pos (hsave _)] at hstored
    refine ⟨⟨hrun,fun key => ?_⟩,fun key bytes hb => ?_⟩
    · rw [hram,hstored]
      by_cases hk : ((.default,key) : Cell)=(.default,s.key)
      · rw [hk,Function.update_self,Function.update_self]
      · rw [Function.update_of_ne hk,Function.update_of_ne hk,hw.agree]
    · rw [hram]
      by_cases hk : ((.default,key) : Cell)=(.default,s.key)
      · rw [hk,ram_eq hs] at hb
        dsimp only [content] at hb
        rw [hunset] at hb
        cases hb
      · rw [Function.update_of_ne hk,hb]
  · rw [userSettingsSetDefault_keeps hwrites]
    exact ⟨hw,fun _ _ hb => hb⟩

/-- Every move keeps the agreement and all default values there are. -/
theorem kept_step {move : Move} (hw : Kept setup w) (h : moveStep env setup w move=some next) :
    Kept setup next ∧
      ∀ key bytes,ram w (.default,key)=some bytes → ram next (.default,key)=some bytes := by
  cases move with
  | call target call =>
    have hrun : Running setup next := hw.running.effects (call_effects h)
    obtain ⟨_,s,hs,rfl⟩ := moveStep_call.mp h
    have hfound := getByKey_of_find hs
    cases call with
    | set data len =>
      exact kept_of_untouched (untouched_set ofDefault_content
        (callbacks_sparing ofDefault_content env) hfound) hrun hw
    | setDefault data len => exact kept_setDefault ho hsave hw hfound hrun
    | restoreDefault =>
      exact kept_of_untouched (untouched_restore ofDefault_content
        (callbacks_sparing ofDefault_content env) hfound) hrun hw
    | setChanged =>
      exact kept_of_untouched
        (untouched_flag (by decide) ofDefault_content.flag hfound true) hrun hw
    | clearChanged =>
      exact kept_of_untouched
        (untouched_flag (by decide) ofDefault_content.flag hfound false) hrun hw
  | load =>
    obtain ⟨⟨loaded,ret⟩,hload,rfl⟩ := Option.map_eq_some_iff.mp h
    have hok := toOption_eq_some.mp hload
    have hsame : CellsUntouched .default w loaded := untouched_load (by decide)
      (callbacks_sparing ofDefault_content env)
      hw.running.isLoaded hw.agree hok
    refine kept_of_untouched hsame ⟨?_,?_,recordOk_load hw.running.records hok⟩ hw
    · exact hsame.setup.regs.trans hw.running.regs
    · exact hsame.setup.isLoaded.trans hw.running.isLoaded
  | reboot =>
    have hb := reboot_ok (toOption_eq_some.mp h)
    refine ⟨kept_of_booted hb,fun key bytes hbytes => ?_⟩
    rw [booted_ram hb,booted_stored hb hw.running.regs,←hw.agree]
    exact hbytes

/-- Every run keeps the agreement and all default values there are. -/
theorem kept_run {moves : List Move} (hw : Kept setup w)
    (h : run (moveStep env setup) w moves=some next) : Kept setup next ∧
      ∀ key bytes,ram w (.default,key)=some bytes → ram next (.default,key)=some bytes := by
  refine run_invariant_always (I:=fun v => Kept setup v ∧ ∀ key bytes,
    ram w (.default,key)=some bytes → ram v (.default,key)=some bytes) ?_ ⟨hw,fun _ _ hb => hb⟩ h
  intro u move v hu hstep
  obtain ⟨hkept,hbytes⟩ := kept_step ho hsave hu.1 hstep
  exact ⟨hkept,fun key bytes hb => hbytes key bytes (hu.2 key bytes hb)⟩

end Saved

/-- Where default values may not be overwritten: for every run of calls,
imports, commands of the binary protocol and of the shell, repeated loads and
reboots of a device that may hold any entries at its first start, storage not
failing and callbacks setting whatever values, the run is a run of calls on
single settings, loads and reboots. Once a default value is returned, after
any number of further ones the same is returned, and it is fixed. -/
theorem default_written_once (env : Env) (ho : env.defaultOverwrite=false)
    (hsave : ∀ n,env.saveResult n=0) (setup : Setup) (nvs : Entries) (start final : World)
    (actions : List Action) (hboot : boot env setup nvs=.ok start)
    (hrun : run (actionStep env setup) start actions=some final) :
    run (moveStep env setup) start (allMoves env setup start actions)=some final ∧
      ∀ early late middle last,early++late<+:allMoves env setup start actions →
        run (moveStep env setup) start early=some middle →
        run (moveStep env setup) middle late=some last →
        ∀ key bytes,getDefault middle key=some bytes →
          getDefault last key=some bytes ∧ Fixed env last key bytes := by
  refine ⟨run_allMoves hrun,fun early late middle last _ hearly hlate key bytes hbytes => ?_⟩
  obtain ⟨hmiddle,_⟩ := kept_run ho hsave (kept_of_booted (reboot_ok hboot)) hearly
  obtain ⟨hlast,hkeeps⟩ := kept_run ho hsave hmiddle hlate
  rw [getDefault_eq hmiddle.running.isLoaded hmiddle.running.records] at hbytes
  have hram := hkeeps key bytes hbytes
  rw [getDefault_eq hlast.running.isLoaded hlast.running.records]
  exact ⟨hram,fixed_of_ram ho hlast.running.isLoaded hlast.running.records hram⟩

/-- A default value is set on a new device, and again by the shell after a reboot. -/
theorem default_written_once_on_device :
    let env : Env := {calm with defaultOverwrite := false}
    let setup : Setup := device .u8 0 none none
    let actions : List Action := [.device (.store (.setDefault (.key keyA) (memOf [7]) 1)),
      .device .reboot,.shell (fun _ => 0) (.setDefault keyA ⟨CString.ascii ['9'],by decide⟩)]
    ∃ start final,boot env setup ∅=.ok start ∧
      run (actionStep env setup) start actions=some final ∧
      getDefault final keyA=some [7] ∧ Fixed env final keyA [7] := by
  intro env setup actions
  have hdevice : ∃ start final,boot env setup ∅=.ok start ∧
      run (actionStep env setup) start actions=some final ∧ getDefault final keyA=some [7] :=
    ⟨_,_,rfl,rfl,rfl⟩
  obtain ⟨start,final,hboot,hsteps,hbytes⟩ := hdevice
  obtain ⟨hrun,hall⟩ := default_written_once env rfl (fun _ => rfl) setup ∅ start final actions
    hboot hsteps
  have hpre : allMoves env setup start actions++[]<+:allMoves env setup start actions :=
    ⟨[],by rw [List.append_nil,List.append_nil]⟩
  exact ⟨start,final,hboot,hsteps,hall _ [] final final hpre hrun (run_nil final) keyA [7] hbytes⟩

end UserSettings.WriteOnce
