import UserSettings.Commands
import UserSettings.Device
import UserSettings.History
import UserSettings.Lifecycle

/-!
# The whole system as calls on single settings

Whatever reaches a device (calls of the application, JSON, the binary
protocol, the shell, a repeated load, a reboot) comes down to moves: calls of
the five functions that act on one setting, loads and reboots. The moves of
an action are computed by following the code; an action is the run of its
moves, so what holds of runs of moves holds of everything a device does.
-/

namespace UserSettings.Moves

open Bytes Settings Storage Store Effects Setters Reactions Load Operations Transition Binary
open Executor Json Commands Device Records Cells

/-- A call on one setting. -/
inductive SettingCall where
  /-- Set a value. -/
  | set (data : Mem) (len : ℕ)
  /-- Set a default value. -/
  | setDefault (data : Mem) (len : ℕ)
  /-- Restore the default value. -/
  | restoreDefault
  /-- Mark as changed. -/
  | setChanged
  /-- Clear the changed flag. -/
  | clearChanged

/-- The operation that makes a call on a setting. -/
def SettingCall.op (target : Target) : SettingCall → StoreOp
  | .set data len => .set target data len
  | .setDefault data len => .setDefault target data len
  | .restoreDefault => .restoreDefault target
  | .setChanged => .setChanged target
  | .clearChanged => .clearChangedOne target

/-- What a call does with the record of its setting. -/
def SettingCall.visit (env : Env) (call : SettingCall) (w : World) (s : UserSetting) : World :=
  Operations.visit env (call.op (.key s.key)) w s

/-- A step of the system. -/
inductive Move where
  /-- A call on one setting. -/
  | call (target : Target) (call : SettingCall)
  /-- A repeated load. -/
  | load
  /-- A loss of power and the next start. -/
  | reboot

/-- Make a move; a fault has no next state. -/
def moveStep (env : Env) (setup : Setup) (w : World) : Move → Option World
  | .call target call => Operations.step env w (call.op target)
  | .load => (userSettingsLoad env w (loadingOf w.nvs.entries)).toOption.map Prod.fst
  | .reboot => (reboot env setup w).toOption

/-- Anything that may happen to a device. -/
inductive Action where
  /-- A call, an import, a command of the protocol or a reboot. -/
  | device (op : DeviceOp)
  /-- A command of the shell, with the memory behind what it puts on the stack. -/
  | shell (stack : Mem) (command : ShellCommand)
  /-- A repeated load. -/
  | load

/-- A step of a device; a fault has no next state. -/
def actionStep (env : Env) (setup : Setup) (w : World) : Action → Option World
  | .device op => deviceStep env setup w op
  | .shell stack command => (command.exec env stack w).toOption.map Prod.fst
  | .load => (userSettingsLoad env w (loadingOf w.nvs.entries)).toOption.map Prod.fst

/-- The same call on every setting, in registration order. -/
def callAll (w : World) (call : SettingCall) : List Move :=
  w.list.items.map fun s => .call (.key s.key) call

/-- The moves of an operation of the store. -/
def storeMoves (w : World) : StoreOp → List Move
  | .set target data len => [.call target (.set data len)]
  | .setDefault target data len => [.call target (.setDefault data len)]
  | .restoreDefaults => callAll w .restoreDefault
  | .restoreDefault target => [.call target .restoreDefault]
  | .setChanged target => [.call target .setChanged]
  | .clearChangedOne target => [.call target .clearChanged]
  | .clearChanged => callAll w .clearChanged

/-- The moves of importing one member: a set call, and a mark after its success
if marking is asked for. -/
def memberMoves (env : Env) (stack : Mem) (w : World) (key : CString) (type : UserSettingType)
    (setting : CJson) (alwaysMarkChanged : Bool) : List Move :=
  match importBytes env.charIsSigned type setting with
  | .ok (some bytes) =>
    .call (.key key) (.set (stack.write 0 bytes) bytes.length)::
      match userSettingsSetWithKey env w key (stack.write 0 bytes) bytes.length with
      | .ok (_,err) =>
        if err=0 ∧ alwaysMarkChanged then [.call (.key key) .setChanged] else []
      | .error _ => []
  | .ok none | .error _ => []

/-- The moves of importing members one after another. -/
def jsonMoves (env : Env) (stack : Mem) (alwaysMarkChanged : Bool) :
    World → List CJson → List Move
  | _,[] => []
  | w,setting::rest =>
    if setting.kind=.invalid then jsonMoves env stack alwaysMarkChanged w rest
    else
      match existsWithString w setting.string with
      | .error _ => []
      | .ok none => jsonMoves env stack alwaysMarkChanged w rest
      | .ok (some key) =>
        match userSettingsGetTypeWithKey w key with
        | .error _ => []
        | .ok type =>
          memberMoves env stack w key type setting alwaysMarkChanged++
            match prvSetFromJson env stack w key type setting alwaysMarkChanged with
            | .error _ => []
            | .ok (next,err) =>
              if err≠0 ∧ err≠-eInval then [] else jsonMoves env stack alwaysMarkChanged next rest

/-- A call by identifier if there is a setting with it. -/
def callById (w : World) (id : UInt16) (call : SettingCall) : List Move :=
  if (w.find (.id id)).isSome then [.call (.id id) call] else []

/-- The moves of a command of the binary protocol. -/
def commandMoves (w : World) (buffer : Mem) (len : UInt32) : List Move :=
  let decoded := userSettingsProtocolBinaryDecodeCommand buffer len
  let cmd := decoded.command
  if decoded.ret<0 then []
  else
    match commandType? cmd.type with
    | some .set => callById w cmd.id (.set cmd.value.mem cmd.valueLen.toNat)
    | some .setDefault => callById w cmd.id (.setDefault cmd.value.mem cmd.valueLen.toNat)
    | some .restore => callAll w .restoreDefault
    | some .get | some .getFull | some .list | some .listFull | some .listSome
    | some .listSomeFull | none => []

/-- A call by key if there is a setting with it. -/
def callByName (w : World) (name : CString) (call : UserSetting → List Move) : List Move :=
  match userSettingsListGetByKey w.list name with
  | none => []
  | some s => call s

/-- The moves of a text passed to a setter. -/
def textMoves (env : Env) (stack : Mem) (value : CString) (call : Mem → ℕ → SettingCall)
    (s : UserSetting) : List Move :=
  match shellBytes env.charIsSigned s.type value with
  | .error _ => []
  | .ok bytes => [.call (.key s.key) (call (stack.write 0 bytes) bytes.length)]

/-- The moves of a command of the shell. -/
def shellMoves (env : Env) (stack : Mem) (w : World) : ShellCommand → List Move
  | .set name value => callByName w name (textMoves env stack value .set)
  | .setDefault name value => callByName w name (textMoves env stack value .setDefault)
  | .restore => callAll w .restoreDefault
  | .restoreOne name => callByName w name fun _ => [.call (.key name) .restoreDefault]
  | .clearChanged => callAll w .clearChanged
  | .clearChangedOne name => callByName w name fun s => [.call (.key s.key) .clearChanged]

/-- The moves of an action. -/
def Action.moves (env : Env) (w : World) : Action → List Move
  | .device (.store op) => storeMoves w op
  | .device (.json stack settings alwaysMarkChanged) =>
    match settings with
    | none => []
    | some settings => jsonMoves env stack alwaysMarkChanged w settings.children
  | .device (.binary _ _ _ buffer len) => commandMoves w buffer len
  | .device .reboot => [.reboot]
  | .shell stack command => shellMoves env stack w command
  | .load => [.load]

variable {env : Env} {setup : Setup} {w next : World} {ret : ℤ}

/-- A call made by a step is the visit of the named record. -/
theorem moveStep_call {target : Target} {call : SettingCall} :
    moveStep env setup w (.call target call)=some next ↔
      w.isLoaded=true ∧ ∃ s,w.find target=some s ∧ next=call.visit env w s := by
  have ht : target? (call.op target)=some target := by cases call <;> rfl
  have hv : ∀ s,Operations.visit env (call.op target) w s=call.visit env w s := by
    cases call <;> exact fun _ => rfl
  unfold moveStep
  dsimp only
  rw [step_eq]
  by_cases hl : w.isLoaded=true
  · rw [if_pos hl,ht]
    dsimp only
    rw [Option.map_eq_some_iff]
    constructor
    · rintro ⟨s,hs,hn⟩
      exact ⟨hl,s,hs,by rw [←hn,hv]⟩
    · rintro ⟨_,s,hs,hn⟩
      exact ⟨s,hs,by rw [hn,hv]⟩
  · rw [if_neg hl]
    constructor
    · intro h
      cases h
    · exact fun h => absurd h.1 hl

/-- A visit is a sequence of effects. -/
theorem callVisit_effects {s : UserSetting} (call : SettingCall) (hs : w.getByKey s.key=some s) :
    EffectSeq env anyValue w (call.visit env w s) := visit_effects _ hs

/-- Every move is a sequence of effects, a load or a start. -/
theorem call_effects {target : Target} {call : SettingCall}
    (h : moveStep env setup w (.call target call)=some next) :
    EffectSeq env anyValue w next := by
  obtain ⟨_,s,hs,rfl⟩ := moveStep_call.mp h
  exact callVisit_effects call (getByKey_of_find hs)

/-- One move. -/
theorem run_single {move : Move} (h : moveStep env setup w move=some next) :
    run (moveStep env setup) w [move]=some next := run_cons.mpr ⟨next,h,rfl⟩

/-- Visits of all records are the calls on all of them. -/
theorem run_callAll (hl : w.isLoaded=true) (call : SettingCall) :
    run (moveStep env setup) w (callAll w call)=some (forEachSetting (call.visit env) w) := by
  have hfold : ∀ (items : List UserSetting) (u : World),u.isLoaded=true →
      (∀ t∈items,∃ now,u.getByKey t.key=some now) →
      run (moveStep env setup) u (items.map fun t => .call (.key t.key) call)=
        some (items.foldl (fun u t => call.visit env u (u.deref t)) u) := by
    intro items
    induction items with
    | nil => exact fun _ _ _ => rfl
    | cons t rest ih =>
      intro u hu hitems
      obtain ⟨now,hnow⟩ := hitems t List.mem_cons_self
      have hkey := key_of_getByKey hnow
      have heff : EffectSeq env anyValue u (call.visit env u now) :=
        callVisit_effects call (by rw [hkey,hnow])
      have hstep : moveStep env setup u (.call (.key t.key) call)=some (call.visit env u now) :=
        moveStep_call.mpr ⟨hu,now,hnow,rfl⟩
      rw [List.map_cons,List.foldl_cons,deref_eq hnow]
      refine run_cons.mpr ⟨_,hstep,ih _ (heff.sameSetup.isLoaded.trans hu) ?_⟩
      intro x hx
      obtain ⟨old,hold⟩ := hitems x (List.mem_cons_of_mem t hx)
      obtain ⟨new,hnew,_⟩ := getByKey_of_registrations heff.sameSetup.regs hold
      exact ⟨new,hnew⟩
  exact hfold w.list.items w hl fun t ht => ⟨t,getByKey_of_mem ht⟩

/-- A call of the store is the run of its moves. -/
theorem run_storeMoves {op : StoreOp} (h : Operations.step env w op=some next) :
    run (moveStep env setup) w (storeMoves w op)=some next := by
  have hl : w.isLoaded=true := by
    rw [step_eq] at h
    by_contra hn
    rw [if_neg hn] at h
    cases h
  cases op with
  | set | setDefault | restoreDefault | setChanged | clearChangedOne => exact run_single h
  | restoreDefaults =>
    rw [step_eq,if_pos hl] at h
    rw [←h]
    exact run_callAll hl .restoreDefault
  | clearChanged =>
    rw [step_eq,if_pos hl] at h
    rw [←h]
    exact run_callAll hl .clearChanged

/-- A successful public function without a result as a step. -/
theorem step_of_ok (op : StoreOp) (h : op.exec env w=.ok (next,ret)) :
    Operations.step env w op=some next := by
  unfold Operations.step
  rw [h]
  rfl

/-- Importing a member is the run of its moves. -/
theorem run_memberMoves {stack : Mem} {key : CString} {type : UserSettingType}
    {setting : CJson} {alwaysMarkChanged : Bool}
    (h : prvSetFromJson env stack w key type setting alwaysMarkChanged=.ok (next,ret)) :
    run (moveStep env setup) w (memberMoves env stack w key type setting alwaysMarkChanged)=
      some next := by
  unfold prvSetFromJson at h
  obtain ⟨bytes?,hbytes,h⟩ := bind_eq_ok.mp h
  unfold memberMoves
  rw [hbytes]
  cases bytes? with
  | none =>
    cases h
    rfl
  | some bytes =>
    obtain ⟨⟨middle,err⟩,hset,h⟩ := bind_eq_ok.mp h
    have hfirst : moveStep env setup w (.call (.key key) (.set (stack.write 0 bytes) bytes.length))=
        some middle := step_of_ok (.set (.key key) (stack.write 0 bytes) bytes.length) hset
    dsimp only at h ⊢
    rw [hset]
    dsimp only
    by_cases he : err=0
    · rw [if_neg (not_not.mpr he)] at h
      cases alwaysMarkChanged with
      | false =>
        cases h
        rw [if_neg (by simp)]
        exact run_single hfirst
      | true =>
        obtain ⟨last,hmark,h⟩ := bind_eq_ok.mp h
        cases h
        have hop : StoreOp.exec env middle (.setChanged (.key key))=.ok (next,0) := by
          unfold StoreOp.exec
          dsimp only
          rw [show userSettingsSetChanged env middle (.key key)=.ok next from hmark]
          rfl
        rw [if_pos ⟨he,rfl⟩]
        exact run_cons.mpr ⟨middle,hfirst,run_single (step_of_ok _ hop)⟩
    · rw [if_pos he] at h
      cases h
      rw [if_neg (fun hc => he hc.1)]
      exact run_single hfirst

/-- An import is the run of its moves. -/
theorem run_jsonMoves {stack : Mem} {alwaysMarkChanged : Bool} {settings : List CJson}
    (h : setAllFromJson env stack alwaysMarkChanged w settings=.ok (next,ret)) :
    run (moveStep env setup) w (jsonMoves env stack alwaysMarkChanged w settings)=some next := by
  induction settings generalizing w with
  | nil =>
    cases h
    rfl
  | cons setting rest ih =>
    unfold setAllFromJson at h
    unfold jsonMoves
    split at h
    · rename_i hkind
      rw [if_pos hkind]
      exact ih h
    · rename_i hkind
      obtain ⟨key?,hkey,h⟩ := bind_eq_ok.mp h
      rw [if_neg hkind,hkey]
      cases key? with
      | none => exact ih h
      | some key =>
        obtain ⟨type,htype,h⟩ := bind_eq_ok.mp h
        obtain ⟨⟨middle,err⟩,hone,h⟩ := bind_eq_ok.mp h
        dsimp only at h ⊢
        rw [htype]
        dsimp only
        rw [hone,run_append,run_memberMoves hone]
        dsimp only
        split at h
        · rename_i herr
          cases h
          rw [if_pos herr]
          rfl
        · rename_i herr
          rw [if_neg herr]
          exact ih h

/-- A call by identifier that the executor makes. -/
theorem run_callById {id : UInt16} {call : SettingCall} {found : Bool} (ret : ℤ)
    (hf : userSettingsExists w (.id id)=.ok found)
    (h : if found=true then (call.op (.id id)).exec env w=.ok (next,ret) else next=w) :
    run (moveStep env setup) w (callById w id call)=some next := by
  unfold userSettingsExists at hf
  split at hf
  · cases hf
    unfold callById
    split at h
    · rename_i hs
      rw [if_pos hs]
      exact run_single (step_of_ok _ h)
    · rename_i hs
      rw [if_neg hs,h]
      rfl
  · cases hf

variable {ex : UspExecutor} {st last : ExecState}

/-- A SET command is the run of its moves. -/
theorem run_execSet {id : UInt16} {value : Mem} {valueLen : UInt8}
    (h : prvExecSet env st id value valueLen=.ok (last,ret)) :
    run (moveStep env setup) st.world (callById st.world id (.set value valueLen.toNat))=
      some last.world := by
  unfold prvExecSet at h
  obtain ⟨found,hfound,h⟩ := bind_eq_ok.mp h
  split at h
  · rename_i hf
    obtain ⟨⟨middle,err⟩,hset,h⟩ := bind_eq_ok.mp h
    cases h
    exact run_callById err hfound (by rw [if_pos hf]; exact hset)
  · rename_i hf
    cases h
    exact run_callById 0 hfound (by rw [if_neg hf])

/-- A SET DEFAULT command is the run of its moves. -/
theorem run_execSetDefault {id : UInt16} {value : Mem} {valueLen : UInt8}
    (h : prvExecSetDefault env st id value valueLen=.ok (last,ret)) :
    run (moveStep env setup) st.world (callById st.world id (.setDefault value valueLen.toNat))=
      some last.world := by
  unfold prvExecSetDefault at h
  obtain ⟨found,hfound,h⟩ := bind_eq_ok.mp h
  split at h
  · rename_i hf
    obtain ⟨⟨middle,err⟩,hset,h⟩ := bind_eq_ok.mp h
    cases h
    exact run_callById err hfound (by rw [if_pos hf]; exact hset)
  · rename_i hf
    cases h
    exact run_callById 0 hfound (by rw [if_neg hf])

/-- A restore of all settings is the run of its moves. -/
theorem run_restore (h : userSettingsRestoreDefaults env w=.ok next) :
    run (moveStep env setup) w (callAll w .restoreDefault)=some next := by
  have hop : StoreOp.restoreDefaults.exec env w=.ok (next,0) := by
    unfold StoreOp.exec
    dsimp only
    rw [h]
    rfl
  exact run_storeMoves (step_of_ok .restoreDefaults hop)

/-- A clear of all flags is the run of its moves. -/
theorem run_clear (h : userSettingsClearChanged env w=.ok next) :
    run (moveStep env setup) w (callAll w .clearChanged)=some next := by
  have hop : StoreOp.clearChanged.exec env w=.ok (next,0) := by
    unfold StoreOp.exec
    dsimp only
    rw [h]
    rfl
  exact run_storeMoves (step_of_ok .clearChanged hop)

/-- A command of the binary protocol is the run of its moves. -/
theorem run_commandMoves {respBufferLen : ℕ}
    {writeResponse : List (List UInt8) → List UInt8 → ℤ} {buffer : Mem} {len : UInt32}
    (h : uspExecutorParseAndExecute env (binaryExecutor respBufferLen writeResponse) st buffer
      len=.ok (last,ret)) :
    run (moveStep env setup) st.world (commandMoves st.world buffer len)=some last.world := by
  have hsame : last.world=st.world → run (moveStep env setup) st.world []=some last.world :=
    fun hw => congrArg some hw.symm
  unfold uspExecutorParseAndExecute at h
  dsimp only [binaryExecutor] at h
  unfold commandMoves
  dsimp only
  split at h
  · cases h
  · split at h
    · rename_i hneg
      cases h
      rw [if_pos hneg]
      rfl
    · rename_i hneg
      rw [if_neg hneg]
      split at h <;> rename_i htype <;> rw [htype] <;> dsimp only
      · exact hsame (get_world h)
      · exact hsame (get_world h)
      · exact hsame (stopAtError_world (fun _ _ _ _ => respond_world) h)
      · exact hsame (stopAtError_world (fun _ _ _ _ => respond_world) h)
      · exact run_execSet h
      · exact run_execSetDefault h
      · unfold prvExecRestore at h
        obtain ⟨middle,hrestore,h⟩ := bind_eq_ok.mp h
        cases h
        exact run_restore hrestore
      · exact hsame (stopAtError_world (fun _ _ _ _ => get_world) h)
      · exact hsame (stopAtError_world (fun _ _ _ _ => get_world) h)
      · cases h

/-- A text passed to a setter is the run of its moves. -/
theorem run_textMoves {stack : Mem} {value : CString} {s : UserSetting}
    {setter : CString → Mem → ℕ → Except Fault (World×ℤ)} {call : Mem → ℕ → SettingCall}
    (hsetter : ∀ data len,setter s.key data len=((call data len).op (.key s.key)).exec env w)
    (h : prvSetHelper env stack value s setter=.ok (next,ret)) :
    run (moveStep env setup) w (textMoves env stack value call s)=some next := by
  unfold prvSetHelper at h
  obtain ⟨bytes,hbytes,h⟩ := bind_eq_ok.mp h
  rw [hsetter] at h
  unfold textMoves
  rw [hbytes]
  exact run_single (step_of_ok _ h)

/-- A command on a named setting is the run of its moves. -/
theorem run_callByName {name : CString} {f : UserSetting → Except Fault (World×ℤ)}
    {call : UserSetting → List Move}
    (hcall : ∀ s,w.getByKey name=some s → f s=.ok (next,ret) →
      run (moveStep env setup) w (call s)=some next)
    (h : withName w name f=.ok (next,ret)) :
    run (moveStep env setup) w (callByName w name call)=some next := by
  unfold withName at h
  unfold callByName
  cases hs : userSettingsListGetByKey w.list name with
  | none =>
    rw [hs] at h
    cases h
    rfl
  | some s =>
    rw [hs] at h
    exact hcall s hs h

/-- A command of the shell is the run of its moves. -/
theorem run_shellMoves {stack : Mem} {command : ShellCommand}
    (h : command.exec env stack w=.ok (next,ret)) :
    run (moveStep env setup) w (shellMoves env stack w command)=some next := by
  cases command with
  | set name value =>
    exact run_callByName (fun _ _ hs => run_textMoves (fun _ _ => rfl) hs) h
  | setDefault name value =>
    exact run_callByName (fun _ _ hs => run_textMoves (fun _ _ => rfl) hs) h
  | restore =>
    obtain ⟨middle,hm,he⟩ := map_eq_ok.mp h
    cases he
    exact run_restore hm
  | restoreOne name =>
    refine run_callByName (fun s _ hs => ?_) h
    obtain ⟨⟨middle,code⟩,hm,he⟩ := map_eq_ok.mp hs
    cases he
    exact run_single (step_of_ok (.restoreDefault (.key name)) hm)
  | clearChanged =>
    obtain ⟨middle,hm,he⟩ := map_eq_ok.mp h
    cases he
    exact run_clear hm
  | clearChangedOne name =>
    refine run_callByName (fun s _ hs => ?_) h
    exact run_single (step_of_ok (.clearChangedOne (.key s.key)) hs)

/-- Every action is the run of its moves. -/
theorem run_moves {action : Action} (h : actionStep env setup w action=some next) :
    run (moveStep env setup) w (action.moves env w)=some next := by
  cases action with
  | device op =>
    cases op with
    | store op => exact run_storeMoves h
    | json stack settings alwaysMarkChanged =>
      obtain ⟨⟨last,ret⟩,hrun,rfl⟩ := Option.map_eq_some_iff.mp h
      have hok := toOption_eq_some.mp hrun
      cases settings with
      | none =>
        cases hok
        rfl
      | some settings => exact run_jsonMoves hok
    | binary respBufferLen writeResponse respBuffer buffer len =>
      obtain ⟨⟨last,ret⟩,hrun,rfl⟩ := Option.map_eq_some_iff.mp h
      exact run_commandMoves (toOption_eq_some.mp hrun)
    | reboot => exact run_single h
  | shell stack command =>
    obtain ⟨⟨last,ret⟩,hrun,rfl⟩ := Option.map_eq_some_iff.mp h
    exact run_shellMoves (toOption_eq_some.mp hrun)
  | load => exact run_single h

/-- All moves of a run of actions. -/
def allMoves (env : Env) (setup : Setup) (w : World) (actions : List Action) : List Move :=
  outputs (actionStep env setup) (fun w action => action.moves env w) w actions

/-- A run of actions is the run of all its moves. -/
theorem run_allMoves {actions : List Action}
    (h : run (actionStep env setup) w actions=some next) :
    run (moveStep env setup) w (allMoves env setup w actions)=some next :=
  run_outputs (I:=fun _ => True) (fun _ _ _ _ _ => trivial)
    (fun _ _ _ _ hs => run_moves hs) trivial h

/-- Everything but loads and reboots. -/
def OnlyCalls : Action → Prop
  | .device .reboot | .load => False
  | .device (.store _) | .device (.json _ _ _) | .device (.binary _ _ _ _ _) | .shell _ _ => True

/-- A move that is a call on a setting. -/
def IsCall : Move → Prop
  | .call _ _ => True
  | .load | .reboot => False

/-- The same call on all settings consists of calls. -/
theorem callAll_calls (w : World) (call : SettingCall) : ∀ move∈callAll w call,IsCall move := by
  intro move hm
  obtain ⟨s,_,rfl⟩ := List.mem_map.mp hm
  trivial

/-- One call consists of calls. -/
theorem singleton_calls (target : Target) (call : SettingCall) :
    ∀ move∈[Move.call target call],IsCall move := by
  intro move hm
  rw [List.mem_singleton.mp hm]
  trivial

/-- Nothing consists of calls. -/
theorem nil_calls : ∀ move∈([] : List Move),IsCall move := by
  intro move hm
  cases hm

/-- Importing a member consists of calls. -/
theorem memberMoves_calls (stack : Mem) (w : World) (key : CString) (type : UserSettingType)
    (setting : CJson) (alwaysMarkChanged : Bool) :
    ∀ move∈memberMoves env stack w key type setting alwaysMarkChanged,IsCall move := by
  unfold memberMoves
  split
  · intro move hm
    rcases List.mem_cons.mp hm with rfl|hmark
    · trivial
    · split at hmark
      · split at hmark
        · exact singleton_calls _ _ move hmark
        · exact nil_calls move hmark
      · exact nil_calls move hmark
  · exact nil_calls
  · exact nil_calls

/-- An import consists of calls. -/
theorem jsonMoves_calls (stack : Mem) (alwaysMarkChanged : Bool) (w : World)
    (settings : List CJson) :
    ∀ move∈jsonMoves env stack alwaysMarkChanged w settings,IsCall move := by
  induction settings generalizing w with
  | nil => exact nil_calls
  | cons setting rest ih =>
    unfold jsonMoves
    split
    · exact ih w
    · split
      · exact nil_calls
      · exact ih w
      · split
        · exact nil_calls
        · intro move hm
          rcases List.mem_append.mp hm with hfirst|hrest
          · exact memberMoves_calls stack w _ _ setting alwaysMarkChanged move hfirst
          · split at hrest
            · exact nil_calls move hrest
            · split at hrest
              · exact nil_calls move hrest
              · exact ih _ move hrest

/-- A call by identifier consists of calls. -/
theorem callById_calls (w : World) (id : UInt16) (call : SettingCall) :
    ∀ move∈callById w id call,IsCall move := by
  unfold callById
  split
  · exact singleton_calls _ _
  · exact nil_calls

/-- A command of the binary protocol consists of calls. -/
theorem commandMoves_calls (w : World) (buffer : Mem) (len : UInt32) :
    ∀ move∈commandMoves w buffer len,IsCall move := by
  unfold commandMoves
  dsimp only
  split
  · exact nil_calls
  · split
    · exact callById_calls _ _ _
    · exact callById_calls _ _ _
    · exact callAll_calls _ _
    all_goals exact nil_calls

/-- A command of the shell consists of calls. -/
theorem shellMoves_calls (stack : Mem) (w : World) (command : ShellCommand) :
    ∀ move∈shellMoves env stack w command,IsCall move := by
  have hname : ∀ {name : CString} {call : UserSetting → List Move},
      (∀ s,∀ move∈call s,IsCall move) → ∀ move∈callByName w name call,IsCall move := by
    intro name call hcall
    unfold callByName
    split
    · exact nil_calls
    · exact hcall _
  have htext : ∀ (value : CString) (call : Mem → ℕ → SettingCall) (s : UserSetting),
      ∀ move∈textMoves env stack value call s,IsCall move := by
    intro value call s
    unfold textMoves
    split
    · exact nil_calls
    · exact singleton_calls _ _
  cases command with
  | set name value => exact hname (htext value _)
  | setDefault name value => exact hname (htext value _)
  | restore => exact callAll_calls w _
  | restoreOne name => exact hname fun _ => singleton_calls _ _
  | clearChanged => exact callAll_calls w _
  | clearChangedOne name => exact hname fun _ => singleton_calls _ _

/-- An action other than a load or a reboot consists of calls. -/
theorem moves_calls {action : Action} (h : OnlyCalls action) (w : World) :
    ∀ move∈action.moves env w,IsCall move := by
  cases action with
  | device op =>
    cases op with
    | store op =>
      cases op with
      | set | setDefault | restoreDefault | setChanged | clearChangedOne =>
        exact singleton_calls _ _
      | restoreDefaults | clearChanged => exact callAll_calls w _
    | json stack settings alwaysMarkChanged =>
      cases settings with
      | none => exact nil_calls
      | some settings => exact jsonMoves_calls stack alwaysMarkChanged w _
    | binary _ _ _ buffer len => exact commandMoves_calls w buffer len
    | reboot => exact h.elim
  | shell stack command => exact shellMoves_calls stack w command
  | load => exact h.elim

/-- All moves of actions other than loads and reboots are calls. -/
theorem allMoves_calls {actions : List Action} (h : ∀ action∈actions,OnlyCalls action)
    (w : World) : ∀ move∈allMoves env setup w actions,IsCall move := by
  intro move hm
  obtain ⟨middle,action,hmem,hmove⟩ := mem_outputs hm
  exact moves_calls (h action hmem) middle move hmove

/-- A load keeps what was registered. -/
theorem load_running {backend : Subtree → Loading} {ret : ℤ} (hw : Running setup w)
    (h : userSettingsLoad env w backend=.ok (next,ret)) : Running setup next := by
  have hkept : registrations next=registrations w ∧ next.isLoaded=true := by
    refine load_keeps (P:=fun u => registrations u=registrations w ∧ u.isLoaded=true)
      (fun subtree u hu => ?_) (fun _ hu => ⟨hu.1,rfl⟩) ⟨rfl,hw.isLoaded⟩ h
    refine loadSubtree_keeps (P:=fun u => registrations u=registrations w ∧ u.isLoaded=true)
      (fun d _ v hv => ?_) hu
    have hplain : ∀ bytes,registrations (v.modify d.key (loadUpdate subtree bytes))=
        registrations w :=
      fun bytes => (registrations_modify (plain_loadUpdate subtree bytes) v d.key).trans hv.1
    rcases hSet_cases env.callbacks v subtree d.key d.len d.readCb with h|⟨t,bytes,_,h|⟨_,h⟩⟩ <;>
      rw [h]
    · exact hv
    · exact ⟨hplain bytes,hv.2⟩
    · have hsame := (Lifecycle.notified_effects env (v.modify d.key (loadUpdate subtree bytes))
        t).sameSetup
      exact ⟨hsame.regs.trans (hplain bytes),hsame.isLoaded.trans hv.2⟩
  exact ⟨hkept.1.trans hw.regs,hkept.2,Lifecycle.recordOk_load hw.records h⟩

/-- A move keeps a running device running. -/
theorem running_move (hw : Running setup w) {move : Move}
    (h : moveStep env setup w move=some next) : Running setup next := by
  cases move with
  | call target call => exact hw.effects (call_effects h)
  | reboot => exact running_of_booted (reboot_ok (toOption_eq_some.mp h))
  | load =>
    obtain ⟨⟨loaded,ret⟩,hrun,rfl⟩ := Option.map_eq_some_iff.mp h
    exact load_running hw (toOption_eq_some.mp hrun)

/-- Whatever actions follow a start, the device is running. -/
theorem running_of_actions {nvs : Entries} {start : World} {actions : List Action}
    (hboot : boot env setup nvs=.ok start)
    (hrun : run (actionStep env setup) start actions=some next) : Running setup next :=
  run_invariant_always (fun _ _ _ hw hs => running_move hw hs)
    (running_of_booted (reboot_ok hboot)) (run_allMoves hrun)

end UserSettings.Moves
