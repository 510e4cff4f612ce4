import UserSettings.Lifecycle
import UserSettings.Notices
import UserSettings.Refinement

/-!
# What a device asks of its storage

Every write of the code is preceded by a comparison, so a device calls
settings_save_one exactly once for each cell that changes, and never for
nothing. Since a value is stored before its flag, and each call of
settings_save_one takes effect as a whole or not at all, a power loss at any
moment leaves the device of some completed calls, at most with a new value
whose flag is still the old one.
-/

namespace UserSettings.StorageUse

open Bytes Settings Storage Store Effects Setters Reactions Load Operations Transition Records
open Cells Outcomes Moves Durability Validity WriteThrough Machine Ledger Refinement

variable {env : Env} {setup : Setup} {w next : World} {s : UserSetting} {data : Mem} {len : ℕ}

section Economy

/-- The cells that differ between two states. -/
def changedCells (w next : World) : Set Cell := {cell | ram next cell≠ram w cell}

/-- How many cells of RAM a call on a setting changes. -/
noncomputable def cellChanges (env : Env) (setup : Setup) (w : World) : Move → List ℕ
  | .call target call =>
    match moveStep env setup w (.call target call) with
    | none => []
    | some next => [(changedCells w next).ncard]
  | .load | .reboot => []

/-- A call that writes no bytes over nothing it should keep. -/
def WritesSomething (env : Env) (w : World) : Move → Prop
  | .call target call => NoEmptyWrite env w (call.op target)
  | .load | .reboot => True

/-- A new value and the mark for it each change a cell of their own. -/
theorem effective_set (hok : RecordOk s) (hs : w.getByKey s.key=some s) (hn : len≠0)
    (hd : ¬SameValue s data len) : Effective (ram w)
      (writeOf (.value,s.key) (bytesAt data len)::markPlan (ram w) s.key true) := by
  have hne : bytesAt data len≠[] := fun h => hn (bytesAt_eq_nil.mp h)
  have hold : ram w (.value,s.key)≠some (bytesAt data len) := by
    intro h
    refine hd ((sameValue_iff_filled hok hs).mpr (h.trans ?_))
    unfold filled
    rw [if_neg hne]
  unfold writeOf markPlan
  rw [if_neg hne]
  split
  · refine ⟨List.nodup_singleton _,fun write hw => ?_⟩
    rw [List.mem_singleton.mp hw]
    simpa only [Write.onLive,Write.cell,Function.update_self] using hold.symm
  · rename_i hmark
    refine ⟨by simp [Write.cell],fun write hw => ?_⟩
    rcases List.mem_cons.mp hw with rfl|hlast
    · simpa only [Write.onLive,Write.cell,Function.update_self] using hold.symm
    · rw [List.mem_singleton.mp hlast]
      simpa only [Write.onLive,Write.cell,Function.update_self] using fun h => hmark h.symm

/-- A set call that deletes no entry makes effective writes. -/
theorem set_effective (hq : Passive env.callbacks) (hok : RecordOk s)
    (hs : w.getByKey s.key=some s)
    (hlose : ¬(len=0 ∧ s.isSet=true ∧ s.validates data len=true)) :
    ∃ writes,Effective (ram w) writes ∧
      ledgerOf (prvUserSettingsSet env env.callbacks w s data len).1=
        (exec (medium env) (ledgerOf w) writes).1 := by
  by_cases hw : Writes s data len
  · have hn : len≠0 := by
      rintro rfl
      exact hlose ⟨rfl,isSet_of_writes_empty hok hw,hw.valid⟩
    exact ⟨_,effective_set hok hs hn hw.differs,congrArg Prod.fst (set_performs hq hs hw)⟩
  · rw [userSettingsSet_keeps hw]
    exact ⟨[],⟨List.nodup_nil,nofun⟩,rfl⟩

/-- Every call that deletes no entry makes effective writes. -/
theorem visit_effective (hq : Passive env.callbacks) (hok : RecordOk s)
    (hs : w.getByKey s.key=some s) (call : SettingCall)
    (hlose : ¬LosesEntry env (call.op (.key s.key)) s) :
    ∃ writes,Effective (ram w) writes ∧
      ledgerOf (call.visit env w s)=(exec (medium env) (ledgerOf w) writes).1 := by
  have hmark : ∀ flag,∃ writes,Effective (ram w) writes ∧
      ledgerOf (prvSetChangedRecentlyFlag env env.callbacks w s flag).1=
        (exec (medium env) (ledgerOf w) writes).1 := by
    intro flag
    refine ⟨_,?_,congrArg Prod.fst (flag_performs hs flag)⟩
    unfold markPlan
    split
    · exact ⟨List.nodup_nil,nofun⟩
    · rename_i hdiffers
      refine ⟨List.nodup_singleton _,fun write hw => ?_⟩
      rw [List.mem_singleton.mp hw]
      simpa only [Write.onLive,Write.cell,Function.update_self] using fun h => hdiffers h.symm
  cases call with
  | set data len => exact set_effective hq hok hs hlose
  | setChanged => exact hmark true
  | clearChanged => exact hmark false
  | restoreDefault =>
    change ∃ writes,_ ∧ ledgerOf (prvSettingsRestore env env.callbacks w s)=_
    unfold prvSettingsRestore
    cases hset : s.isSet with
    | false => exact ⟨[],⟨List.nodup_nil,nofun⟩,rfl⟩
    | true =>
      refine set_effective hq hok hs ?_
      rintro ⟨hzero,_,hvalid⟩
      rw [hzero] at hvalid
      refine hlose ⟨hset,?_,hvalid⟩
      by_contra hd
      have hpos := hok.default.isSet_iff.mp (by simpa using hd)
      omega
  | setDefault data len =>
    change ∃ writes,_ ∧ ledgerOf (prvUserSettingsSetDefault env env.callbacks w s data len).1=_
    by_cases hw : WritesDefault env s data len
    · have hne : bytesAt data len≠[] := by
        intro h
        have hzero := bytesAt_eq_nil.mp h
        subst hzero
        have hdefault : s.defaultIsSet=true := by
          by_contra hd
          refine hw.differs ⟨(hok.default.len_eq_zero (by simpa using hd)).symm,?_⟩
          rw [hok.default.len_eq_zero (by simpa using hd)]
          rfl
        refine hlose ⟨rfl,hdefault,?_,hw.valid⟩
        rcases hw.unlocked with ho|ho
        · exact ho
        · rw [hdefault] at ho
          cases ho
      refine ⟨_,?_,congrArg Prod.fst (setDefault_performs hs hw)⟩
      refine ⟨List.nodup_singleton _,fun write hwrite => ?_⟩
      rw [List.mem_singleton.mp hwrite]
      unfold writeOf
      rw [if_neg hne]
      simp only [Write.onLive,Write.cell,Function.update_self]
      intro h
      refine hw.differs ((sameDefault_iff_filled hok hs).mpr ?_)
      unfold filled
      rw [if_neg hne]
      exact h.symm
    · rw [userSettingsSetDefault_keeps hw]
      exact ⟨[],⟨List.nodup_nil,nofun⟩,rfl⟩

/-- Notifying callbacks that only look stores nothing. -/
theorem notify_saves {cb : Callbacks} (hq : Passive cb) (w : World) (s : UserSetting) :
    (notifyOwn cb (notifyGlobal cb w s) s).saves=w.saves := by
  rw [notify_passive hq]

/-- Neither does a load. -/
theorem load_saves (hq : Passive env.callbacks) {backend : Subtree → Loading} {ret : ℤ}
    (h : userSettingsLoad env w backend=.ok (next,ret)) : next.saves=w.saves := by
  refine load_keeps (P:=fun u => u.saves=w.saves) (fun subtree u hu => ?_) (fun _ hu => hu) rfl h
  refine loadSubtree_keeps (P:=fun u => u.saves=w.saves) (fun d _ v hv => ?_) hu
  rcases hSet_cases env.callbacks v subtree d.key d.len d.readCb with h|⟨t,bytes,_,h|⟨_,h⟩⟩ <;>
    rw [h]
  · exact hv
  · exact hv
  · rw [notify_saves hq]
    exact hv

/-- One move makes a storage call for each cell that its call changes. -/
theorem move_saves (hq : Passive env.callbacks) (hw : Running setup w) {move : Move}
    (hc : WritesSomething env w move) (h : moveStep env setup w move=some next) :
    next.saves=w.saves+(cellChanges env setup w move).sum := by
  cases move with
  | load =>
    obtain ⟨⟨loaded,ret⟩,hrun,rfl⟩ := Option.map_eq_some_iff.mp h
    exact load_saves hq (toOption_eq_some.mp hrun)
  | reboot => exact (reboot_ok (toOption_eq_some.mp h)).saves
  | call target call =>
    have hone : cellChanges env setup w (.call target call)=[(changedCells w next).ncard] := by
      unfold cellChanges
      dsimp only
      rw [h]
    obtain ⟨_,s,hs,rfl⟩ := moveStep_call.mp h
    have hself := getByKey_of_find hs
    have hkeeps : ¬LosesEntry env (call.op (.key s.key)) s := by
      have hno := hc s hself
      cases call <;> exact hno fun _ ht => Option.some.inj ht ▸ hs
    obtain ⟨writes,heffective,hmade⟩ :=
      visit_effective hq (hw.records.getByKey hself) hself call hkeeps
    have hcount := attempts_exec (t:=ledgerOf w) (medium env) heffective
    rw [←hmade] at hcount
    rw [hone,List.sum_singleton]
    exact hcount

/-- For every run of calls, imports, commands of the binary protocol and of the
shell, repeated loads and reboots, whichever storage calls fail, in which no
call writes zero bytes over something: settings_save_one was called exactly
once for each time a call changed a cell of RAM. -/
theorem storage_calls_exact (env : Env) (hquiet : ∀ n,env.react n=[]) (setup : Setup)
    (nvs : Entries) (start final : World) (actions : List Action)
    (hboot : boot env setup nvs=.ok start)
    (hrun : run (actionStep env setup) start actions=some final)
    (hwrites : Meets (moveStep env setup) (WritesSomething env) start
      (allMoves env setup start actions)) :
    final.saves=start.saves+(outputs (moveStep env setup) (cellChanges env setup) start
      (allMoves env setup start actions)).sum := by
  have hcount : ∀ (moves : List Move) (w : World),Running setup w →
      Meets (moveStep env setup) (WritesSomething env) w moves →
      run (moveStep env setup) w moves=some final → final.saves=
        w.saves+(outputs (moveStep env setup) (cellChanges env setup) w moves).sum := by
    intro moves
    induction moves with
    | nil =>
      intro w _ _ hr
      cases hr
      rfl
    | cons move rest ih =>
      intro w hw hm hr
      obtain ⟨next,hs,hr⟩ := run_cons.mp hr
      have hone := move_saves (passive_callbacks hquiet) hw hm.1 hs
      rw [ih next (running_move hw hs) (hm.2 next hs) hr,outputs_cons hs,List.sum_append,hone,
        Nat.add_assoc]
  exact hcount _ start (running_of_booted (reboot_ok hboot)) hwrites (run_allMoves hrun)

/-- A set call is repeated, loaded and started on a device whose second storage
call fails: two calls for two changes. -/
theorem storage_calls_exact_on_device :
    let setup := Operations.device .u8 0 none none
    let set : Action := .device (.store (.set (.key keyA) (memOf [5]) 1))
    let actions : List Action := [set,set,.load,.device .reboot]
    ∃ start final,boot secondFails setup ∅=.ok start ∧
      run (actionStep secondFails setup) start actions=some final ∧ final.saves=2 ∧
      final.saves=start.saves+(outputs (moveStep secondFails setup)
        (cellChanges secondFails setup) start (allMoves secondFails setup start actions)).sum := by
  refine ⟨_,_,rfl,rfl,rfl,storage_calls_exact secondFails (fun _ => rfl) _ ∅ _ _ _ rfl rfl ?_⟩
  have hset : ∀ w,WritesSomething secondFails w (.call (.key keyA) (.set (memOf [5]) 1)) :=
    fun _ _ _ _ hlose => absurd hlose.1 (by decide)
  exact ⟨hset _,fun _ _ => ⟨hset _,fun _ _ => ⟨trivial,fun _ _ => ⟨trivial,fun _ _ => trivial⟩⟩⟩⟩

end Economy

section PowerLoss

/-- Storage of which power is lost: from some call of settings_save_one on none
has an effect. -/
def stopping (env : Env) (n : ℕ) : Env :=
  {env with saveResult := fun i => if i<n then env.saveResult i else -eIo}

/-- A call in the terms of the ledger. -/
def callOf : SettingCall → Call
  | .set data len => .set (bytesAt data len)
  | .setDefault data len => .setDefault (bytesAt data len)
  | .restoreDefault => .restoreDefault
  | .setChanged => .setChanged
  | .clearChanged => .clearChanged

/-- The writes of a call; a refused one makes none. -/
def planOf (rules : Rules) (live : Copy) (label : Target×SettingCall) :
    Option (List (Write Cell (List UInt8))) :=
  (rules.find label.1).map fun r =>
    match (callOf label.2).plan rules.overwrite r live with
    | .error _ => []
    | .ok writes => writes

/-- The move that an event stands for. -/
def moveOf : Event (Target×SettingCall) → Move
  | .call label => .call label.1 label.2
  | .restart => .reboot

/-- A step of the device under an event. -/
def eventStep (env : Env) (setup : Setup) (w : World) (event : Event (Target×SettingCall)) :
    Option World := moveStep env setup w (moveOf event)

/-- Moves other than loads are events. -/
theorem exists_events {moves : List Move} (h : .load∉moves) :
    ∃ events : List (Event (Target×SettingCall)),moves=events.map moveOf := by
  induction moves with
  | nil => exact ⟨[],rfl⟩
  | cons move rest ih =>
    rw [List.mem_cons,not_or] at h
    obtain ⟨events,rfl⟩ := ih h.2
    cases move with
    | call target call => exact ⟨.call (target,call)::events,rfl⟩
    | load => exact absurd rfl h.1
    | reboot => exact ⟨.restart::events,rfl⟩

/-- A run of events is a run of their moves. -/
theorem run_events (w : World) (events : List (Event (Target×SettingCall))) :
    run (moveStep env setup) w (events.map moveOf)=run (eventStep env setup) w events := by
  induction events generalizing w with
  | nil => rfl
  | cons event rest ih =>
    rw [List.map_cons,run,run]
    unfold eventStep
    cases moveStep env setup w (moveOf event) with
    | none => rfl
    | some next => exact ih next

/-- A call on a setting is the call of the ledger. -/
theorem visit_refines (hq : Passive env.callbacks) (hp : PureRegistration (registration s))
    (hok : RecordOk s) (hs : w.getByKey s.key=some s) (call : SettingCall) :
    ledgerOf (call.visit env w s)=
      (callOn (medium env) env.defaultOverwrite (ledgerOf w) (registration s) (callOf call)).1 := by
  cases call with
  | set data len => exact congrArg Prod.fst (set_refines hp hok hs hq env.defaultOverwrite)
  | setDefault data len => exact congrArg Prod.fst (setDefault_refines hp hok hs)
  | restoreDefault => exact restore_refines hp hok hs hq env.defaultOverwrite
  | setChanged => exact congrArg Prod.fst (flag_performs hs true)
  | clearChanged => exact congrArg Prod.fst (flag_performs hs false)

/-- An event of the device is that of the ledger. -/
theorem event_match (hquiet : ∀ n,env.react n=[]) (hpure : PureSetup setup)
    {before started : World} (hboot : reboot env setup before=.ok started)
    (event : Event (Target×SettingCall)) (hw : Serving setup w) :
    (eventStep env setup w event).map ledgerOf=
      WriteThrough.step (medium env) (planOf (rulesOf env setup)) (ledgerOf w) event := by
  cases event with
  | call label =>
    obtain ⟨target,call⟩ := label
    have hfind : (w.find target).map registration=(rulesOf env setup).find target :=
      find_rules hw target
    unfold WriteThrough.step planOf
    dsimp only
    rw [←hfind]
    cases hs : w.find target with
    | none =>
      have hnone : eventStep env setup w (.call (target,call))=none := by
        by_contra hne
        obtain ⟨next,hnext⟩ := Option.ne_none_iff_exists'.mp hne
        obtain ⟨_,s,hfound,_⟩ := moveStep_call.mp hnext
        rw [hs] at hfound
        cases hfound
      rw [hnone]
      rfl
    | some s =>
      have hself := getByKey_of_find hs
      have hnext : eventStep env setup w (.call (target,call))=some (call.visit env w s) :=
        moveStep_call.mpr ⟨hw.running.isLoaded,s,hs,rfl⟩
      have hrefines := visit_refines (passive_callbacks hquiet) (hw.pure hpure hself)
        (hw.running.records.getByKey hself) hself call
      rw [hnext,Option.map_some,hrefines]
      unfold callOn perform rulesOf ledgerOf
      dsimp only [Option.map_some]
      cases (callOf call).plan env.defaultOverwrite (registration s) (ram w) <;> rfl
  | restart =>
    obtain ⟨next,hrun,hbooted⟩ : ∃ next,reboot env setup w=.ok next ∧ Booted setup w next :=
      reboot_again hboot
    change (reboot env setup w).toOption.map ledgerOf=_
    rw [hrun]
    exact congrArg some (booted_restart hw hbooted)

/-- An event keeps a device serving. -/
theorem serving_event {event : Event (Target×SettingCall)} (hw : Serving setup w)
    (h : eventStep env setup w event=some next) : Serving setup next := by
  cases event with
  | call label => exact hw.effects (call_effects h)
  | restart => exact serving_of_booted (reboot_ok (toOption_eq_some.mp h))

/-- A call makes no write, one write, or writes a value and then its mark. -/
theorem plan_shape {overwrite : Bool} {r : Registration} {live : Copy} {call : Call}
    {writes : List (Write Cell (List UInt8))} (h : call.plan overwrite r live=.ok writes) :
    writes.length ≤ 1 ∨ ∃ bytes,writes=
      [writeOf (.value,r.key) bytes,.put (.changed,r.key) (flagContent true)] := by
  have hmark : ∀ flag,(markPlan live r.key flag).length ≤ 1 := by
    intro flag
    unfold markPlan
    split <;> simp
  have hset : ∀ {bytes},setPlan r live bytes=.ok writes → writes.length ≤ 1 ∨ ∃ bytes,writes=
      [writeOf (.value,r.key) bytes,.put (.changed,r.key) (flagContent true)] := by
    intro bytes hplan
    unfold setPlan at hplan
    split at hplan
    · cases hplan
    · split at hplan
      · cases hplan
        exact .inl (Nat.zero_le 1)
      · split at hplan
        · cases hplan
        · cases hplan
          unfold markPlan
          split
          · exact .inl le_rfl
          · exact .inr ⟨bytes,rfl⟩
  cases call with
  | set bytes => exact hset h
  | setDefault bytes =>
    refine .inl ?_
    change setDefaultPlan overwrite r live bytes=_ at h
    unfold setDefaultPlan at h
    split at h
    · cases h
      exact Nat.zero_le 1
    · split at h
      · cases h
      · split at h
        · cases h
        · split at h
          · cases h
          · cases h
            exact le_rfl
  | restoreDefault =>
    change (if _ then _ else _)=_ at h
    split at h
    · exact hset h
    · cases h
      exact .inl (Nat.zero_le 1)
  | setChanged | clearChanged =>
    cases h
    exact .inl (hmark _)

/-- What a start finds after power was lost with some moves left; the first of
them is a call under way. -/
inductive Recovered (env : Env) (setup : Setup) (n : ℕ) (middle : World) :
    List Move → Copy → Prop
  /-- All moves were completed. -/
  | completed : Recovered env setup n middle [] (stored middle)
  /-- Nothing of the call reached storage. -/
  | lost {target : Target} {call : SettingCall} {later : List Move} {next : World}
    (hnext : moveStep env setup middle (.call target call)=some next) (hless : n<next.saves) :
    Recovered env setup n middle (.call target call::later) (stored middle)
  /-- The call reached storage but for the changed flag. -/
  | unmarked {target : Target} {call : SettingCall} {later : List Move} {next : World}
    {s : UserSetting} (hfind : middle.find target=some s)
    (hnext : moveStep env setup middle (.call target call)=some next) (hless : n<next.saves) :
    Recovered env setup n middle (.call target call::later)
      (Function.update (stored next) (.changed,s.key) (stored middle (.changed,s.key)))

/-- An interrupted ledger is a device with a call under way. -/
theorem interrupted_recovered (hquiet : ∀ n,env.react n=[]) (hpure : PureSetup setup)
    {before started : World} (hboot : reboot env setup before=.ok started)
    (hw : Serving setup w) {n : ℕ} (hn : w.saves ≤ n)
    {rest : List (Event (Target×SettingCall))} {copy : Copy}
    (h : Interrupted (medium env) (planOf (rulesOf env setup)) n (ledgerOf w) rest copy) :
    Recovered env setup n w (rest.map moveOf) copy := by
  cases h with
  | completed => exact .completed
  | @during label later writes hplan hless =>
    obtain ⟨target,call⟩ := label
    have hmatch := event_match hquiet hpure hboot (.call (target,call)) hw
    have hexec : WriteThrough.step (medium env) (planOf (rulesOf env setup)) (ledgerOf w)
        (.call (target,call))=some (exec (medium env) (ledgerOf w) writes).1 := by
      unfold WriteThrough.step
      dsimp only
      rw [hplan]
      rfl
    rw [hexec] at hmatch
    obtain ⟨next,hnext,hledger⟩ := Option.map_eq_some_iff.mp hmatch
    rw [←hledger] at hless
    have hsaves : n<next.saves := hless
    obtain ⟨_,s,hfind,_⟩ := moveStep_call.mp hnext
    have hlength := attempts_exec_le (medium env) (ledgerOf w) writes
    rw [←hledger] at hlength
    have hcount : next.saves ≤ w.saves+writes.length := hlength
    have hbase : (ledgerOf w).attempts=w.saves := rfl
    rw [List.map_cons,hbase]
    by_cases hnone : n=w.saves
    · rw [hnone,Nat.sub_self,List.take_zero]
      exact .lost hnext (hnone ▸ hsaves)
    · -- something was written, so the call has two writes
      have hplan' := hplan
      unfold planOf at hplan'
      rw [←find_rules hw,hfind] at hplan'
      have hwrites := Option.some.inj hplan'
      dsimp only at hwrites
      split at hwrites
      · rw [←hwrites,List.length_nil] at hcount
        omega
      · rename_i made hmade
        subst hwrites
        rcases plan_shape hmade with hshort|⟨bytes,rfl⟩
        · omega
        · have hone : n-w.saves=1 := by
            rw [List.length_cons,List.length_singleton] at hcount
            omega
          have hcells : (Subtree.changed,s.key)≠(writeOf (.value,s.key) bytes).cell := by
            unfold writeOf
            split <;> simp [Write.cell]
          have hboth : (exec (medium env) (ledgerOf w) [writeOf (.value,s.key) bytes,
              .put (.changed,s.key) (flagContent true)]).1=ledgerOf next := hledger.symm
          have hsecond : (ledgerOf w).attempts+1<(ledgerOf next).attempts :=
            Nat.lt_of_le_of_lt (by omega) hsaves
          have hfold : Function.update (stored next) (.changed,s.key) (stored w (.changed,s.key))=
              (writeOf (.value,s.key) bytes).onDurable (stored w) := by
            change Function.update (ledgerOf next).durable _ ((ledgerOf w).durable _)=_
            rw [←hboth] at hsecond ⊢
            exact durable_but_last hcells hsecond
          rw [hone]
          change Recovered env setup n w _ ((writeOf (.value,s.key) bytes).onDurable (stored w))
          rw [←hfold]
          exact .unmarked hfind hnext hsaves

/-- A run of the device is a run of the ledger. -/
theorem run_match (hquiet : ∀ n,env.react n=[]) (hpure : PureSetup setup)
    {before started : World} (hboot : reboot env setup before=.ok started)
    (hw : Serving setup w) (events : List (Event (Target×SettingCall))) :
    (run (eventStep env setup) w events).map ledgerOf=
      run (WriteThrough.step (medium env) (planOf (rulesOf env setup))) (ledgerOf w) events := by
  have h := run_refines ledgerOf id (fun _ _ _ hw h => serving_event hw h)
    (fun _ event hw => event_match hquiet hpure hboot event hw) hw events
  rw [List.map_id] at h
  exact h

/-- A run keeps a device serving. -/
theorem serving_run {events : List (Event (Target×SettingCall))} (hw : Serving setup w)
    (h : run (eventStep env setup) w events=some next) : Serving setup next :=
  run_invariant_always (fun _ _ _ hw h => serving_event hw h) hw h

/-- Power lost on a device is a medium that stops. -/
theorem medium_stopping (env : Env) (n : ℕ) : medium (stopping env n)=upTo n (medium env) := by
  funext i
  unfold medium stopping upTo
  by_cases hi : i<n <;> simp [hi]

/-- Only a load makes a load. -/
theorem load_of_mem_moves {action : Action} (h : .load∈action.moves env w) : action=.load := by
  by_contra hne
  by_cases hcalls : OnlyCalls action
  · exact (moves_calls hcalls w .load h).elim
  · cases action with
    | device op =>
      cases op with
      | reboot => cases List.mem_singleton.mp h
      | store | json | binary => exact hcalls trivial
    | shell => exact hcalls trivial
    | load => exact hne rfl

/-- For every run of calls, imports, commands of the binary protocol and of the
shell and reboots, with storage that may also fail before: when power is lost at
any moment, so that no later call of settings_save_one has an effect, the next
start shows what the device had stored after some of the calls, in order,
without power loss, and nothing of the next call, or all of it but its changed
flag. -/
theorem power_loss_recovers (env : Env) (hquiet : ∀ n,env.react n=[]) (setup : Setup)
    (hpure : PureSetup setup) (nvs : Entries) (start last started : World) (n : ℕ)
    (actions : List Action) (hload : .load∉actions) (hboot : boot env setup nvs=.ok start)
    (hrun : run (actionStep (stopping env n) setup) start actions=some last)
    (hrestart : reboot env setup last=.ok started) :
    ∃ first rest middle,allMoves (stopping env n) setup start actions=first++rest ∧
      run (moveStep env setup) start first=some middle ∧ middle.saves ≤ n ∧
      Recovered env setup n middle rest (ram started) := by
  have hstart : Serving setup start := serving_of_booted (reboot_ok hboot)
  have hzero : (ledgerOf start).attempts=0 := (reboot_ok hboot).saves
  have hmoves : .load∉allMoves (stopping env n) setup start actions := by
    intro hm
    obtain ⟨_,action,hmem,hmove⟩ := mem_outputs hm
    exact hload (load_of_mem_moves hmove ▸ hmem)
  obtain ⟨events,hevents⟩ := exists_events hmoves
  have hdevice := run_allMoves hrun
  rw [hevents,run_events] at hdevice
  obtain ⟨_,hagain,_⟩ : ∃ next,reboot (stopping env n) setup (World.unstarted nvs)=.ok next ∧
      Booted setup (World.unstarted nvs) next := reboot_again hboot
  have hsilent : ∀ i,(stopping env n).react i=[] := hquiet
  have hledger := run_match hsilent hpure hagain hstart events
  rw [hdevice,medium_stopping] at hledger
  obtain ⟨first,rest,middle,hsplit,hfirst,hbefore,hstopped⟩ :=
    power_loss (hzero ▸ Nat.zero_le n) hledger.symm
  have hwhole := run_match hquiet hpure hboot hstart first
  obtain ⟨reached,hreached,rfl⟩ := Option.map_eq_some_iff.mp (hwhole.trans hfirst)
  have hram : ram started=stored last :=
    congrArg Twin.live (booted_restart (serving_run hstart hdevice) (reboot_ok hrestart))
  refine ⟨first.map moveOf,rest.map moveOf,reached,?_,?_,hbefore,?_⟩
  · rw [hevents,hsplit,List.map_append]
  · rw [run_events]
    exact hreached
  · rw [hram]
    exact interrupted_recovered hquiet hpure hboot (serving_run hstart hreached) hbefore hstopped

/-- Power is lost between the two storage calls of a set: the value is new,
and the flag is not set. -/
theorem power_loss_recovers_unmarked :
    let setup := Operations.device .u8 0 none none
    let actions : List Action := [.device (.store (.set (.key keyA) (memOf [5]) 1))]
    ∃ start last started,boot calm setup ∅=.ok start ∧
      run (actionStep (stopping calm 1) setup) start actions=some last ∧
      reboot calm setup last=.ok started ∧ ram last (.changed,keyA)=some [1] ∧
      ram started (.value,keyA)=some [5] ∧ ram started (.changed,keyA)=none ∧
      ∃ first rest middle,allMoves (stopping calm 1) setup start actions=first++rest ∧
        run (moveStep calm setup) start first=some middle ∧ middle.saves ≤ 1 ∧
        Recovered calm setup 1 middle rest (ram started) :=
  ⟨_,_,_,rfl,rfl,rfl,rfl,rfl,rfl,power_loss_recovers calm (fun _ => rfl) _ (pure_device .u8 0) ∅
    _ _ _ 1 _ (fun h => nomatch List.mem_singleton.mp h) rfl rfl rfl⟩

end PowerLoss

end UserSettings.StorageUse
