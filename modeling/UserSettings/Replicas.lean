import UserSettings.Delta
import UserSettings.ImportAgain

/-!
# A device and a copy of its values

A device hands on the export of its changed settings, and clears its flags when
it hears that the export has arrived. Exports and answers may be lost and both
sides may restart. As the device marks what it changes and clears nothing else,
what the copy does not have yet is always part of the next export.
-/

namespace UserSettings.Replicas

open Bytes Settings Storage Store Effects Load Records Cells Outcomes Operations Transition Json
open Device Durability Importing Validity Moves Iteration Changed Refinement Export RoundTrip
open StorageUse Delta
open ImportAgain hiding imported_again importMember_again

/-- What happens to the two devices. -/
inductive ReplicaEvent where
  /-- Anything that the first device does. -/
  | source (action : Action)
  /-- An export arrives and is imported; the first device clears its flags if
  it hears of that. -/
  | deliver (stack chars : Mem) (alwaysMarkChanged acknowledged : Bool)
  /-- The second device restarts. -/
  | restart

/-- Import the export of the changed settings and clear the flags. -/
def deliver (env other : Env) (stack chars : Mem) (alwaysMarkChanged acknowledged : Bool)
    (source replica : World) : Except Fault (World×World) := do
  let object ← userSettingsGetChangedJson chars source
  let (next,_) ← userSettingsSetFromJson other stack replica (some object) alwaysMarkChanged
  if acknowledged then
    let cleared ← userSettingsClearChanged env source
    return (cleared,next)
  else return (source,next)

/-- A step of the two devices; a fault has no next state. -/
def replicaStep (env other : Env) (setup : Setup) (state : World×World) :
    ReplicaEvent → Option (World×World)
  | .source action => (actionStep env setup state.1 action).map fun next => (next,state.2)
  | .deliver stack chars alwaysMarkChanged acknowledged =>
    (deliver env other stack chars alwaysMarkChanged acknowledged state.1 state.2).toOption
  | .restart => (reboot other setup state.2).toOption.map fun next => (state.1,next)

/-- The first device clears no flag on its own and writes no zero bytes over
something; what is delivered comes back as it was or is saved by a validator. -/
def Orderly (env : Env) (setup : Setup) (state : World×World) : ReplicaEvent → Prop
  | .source action =>
    Meets (moveStep env setup) (KeepsMarks env) state.1 (action.moves env state.1)
  | .deliver stack _ _ _ =>
    ∀ s∈flagged state.1,FullWidth s ∧ (Faithful s ∨ Shielded stack state.2 s)
  | .restart => True

/-- Where the values of two devices differ there is a mark. -/
structure Synced (setup : Setup) (state : World×World) : Prop where
  /-- The first device is settled. -/
  source : Settled setup state.1
  /-- Its validate callbacks accept what it stores. -/
  accepted : StoreAccepted setup state.1
  /-- The second device is settled. -/
  replica : Settled setup state.2
  /-- A setting without a flag has the same value on both. -/
  covered : Covers state.2 state.1

variable {env other : Env} {setup : Setup} {stack chars : Mem} {w v next : World} {s : UserSetting}
  {bytes : List UInt8} {member : CJson} {members : List CJson} {alwaysMarkChanged : Bool}
  {ret err : ℤ}

section Importing

variable (hsave : ∀ n,env.saveResult n=0) (hq : Passive env.callbacks)

include hsave hq

/-- The import of some bytes keeps a device settled. -/
theorem settled_imported (hw : Settled setup w) (hs : w.getByKey s.key=some s) (hne : bytes≠[]) :
    Settled setup (imported env stack alwaysMarkChanged w s bytes).1 := by
  have hset : Settled setup
      (prvUserSettingsSet env env.callbacks w s (stack.write 0 bytes) bytes.length).1 := by
    let move : Move := .call (.key s.key) (.set (stack.write 0 bytes) bytes.length)
    have hmove : moveStep env setup w move=some _ :=
      moveStep_call.mpr ⟨hw.serving.running.isLoaded,s,hs,rfl⟩
    have hwrites : WritesSomething env w move :=
      fun _ _ _ hlose => hne (List.length_eq_zero_iff.mp hlose.1)
    exact settled_move hsave hq hw hwrites hmove
  have hregs := hset.serving.running.regs.trans hw.serving.running.regs.symm
  obtain ⟨t,ht,hreg⟩ := getByKey_of_registrations hregs hs
  have hkey : t.key=s.key := congrArg Registration.key hreg
  unfold imported
  dsimp only
  split
  · exact hset
  · split
    · unfold World.deref
      rw [ht]
      have hmove : moveStep env setup _ (.call (.key t.key) .setChanged)=some _ :=
        moveStep_call.mpr ⟨hset.serving.running.isLoaded,t,hkey ▸ ht,rfl⟩
      have hwrites : ∀ u,WritesSomething env u (.call (.key t.key) .setChanged) :=
        fun _ _ _ _ hlose => hlose
      exact settled_move hsave hq hset (hwrites _) hmove
    · exact hset

/-- So does the import of members that write bytes. -/
theorem settled_setAll (hw : Settled setup w) (hnamed : ∀ m∈members,∃ key,m.string=some key)
    (hbytes : ∀ m∈members,WritesBytes env w m)
    (h : setAllFromJson env stack alwaysMarkChanged w members=.ok (next,ret)) :
    Settled setup next := by
  refine setAll_keeps (P:=Settled setup) (fun member hmember u middle err hu hone => ?_) hw h
  obtain ⟨key,hstring⟩ := hnamed member hmember
  cases importMember_cases hu.serving.running hstring hone with
  | inl hpassed => exact hpassed.1 ▸ hu
  | inr hbytesOf =>
    obtain ⟨s,bytes,hs,hconvert,hresult⟩ := hbytesOf
    have hkey := key_of_getByKey hs
    subst hkey
    have hregs := hu.serving.running.regs.trans hw.serving.running.regs.symm
    have hne : bytes≠[] := by
      rintro rfl
      exact (hbytes member hmember).of_registrations hregs s.key s hstring hs hconvert
    have hsettled : Settled setup (imported env stack alwaysMarkChanged u s bytes).1 :=
      settled_imported hsave hq hu hs hne
    rw [hresult] at hsettled
    exact hsettled

/-- Clearing all flags keeps a device settled and all values. -/
theorem settled_cleared (hpure : PureSetup setup) (hw : Settled setup w)
    (ha : StoreAccepted setup w) (h : userSettingsClearChanged env w=.ok next) :
    Settled setup next ∧ StoreAccepted setup next ∧
      ∀ key,ram next (.value,key)=ram w (.value,key) := by
  have haction : actionStep env setup w (.device (.store .clearChanged))=some next := by
    change ((userSettingsClearChanged env w).map _).toOption.map Prod.fst=some next
    rw [h]
    rfl
  have hclears : ∀ move∈callAll w .clearChanged,∃ target,move=.call target .clearChanged := by
    intro move hmem
    obtain ⟨s,_,rfl⟩ := List.mem_map.mp hmem
    exact ⟨_,rfl⟩
  refine run_invariant (I:=fun u => Settled setup u ∧ StoreAccepted setup u ∧
      ∀ key,ram u (.value,key)=ram w (.value,key)) ?_ ⟨hw,ha,fun _ => rfl⟩
    (meets_and hclears (meets_of_forall (C:=fun _ _ => True) (fun _ _ => trivial) _ _))
    (run_moves haction)
  rintro u move last ⟨hu,hv,hsame⟩ ⟨⟨target,rfl⟩,_⟩ hstep
  have hwrites : WritesSomething env u (.call target .clearChanged) := fun _ _ _ hlose => hlose
  refine ⟨settled_move hsave hq hu hwrites hstep,
    storeAccepted_move hq hpure hu hv hstep,fun key => ?_⟩
  obtain ⟨_,s,hs,rfl⟩ := moveStep_call.mp hstep
  have hcells : ram (prvSetChangedRecentlyFlag env env.callbacks u s false).1=_ ∧
      stored (prvSetChangedRecentlyFlag env env.callbacks u s false).1=_ :=
    flag_cells (getByKey_of_find hs) false
  have hflag : ram (SettingCall.visit env .clearChanged u s)=_ := hcells.1
  rw [hflag,Function.update_of_ne (cell_ne .value .changed (by decide) key s.key)]
  exact hsame key

end Importing

/-- An export has named members, none of which writes zero bytes elsewhere. -/
theorem export_members {chars : Mem} {settings : List UserSetting} (hw : Running setup w)
    (hv : Running setup v) (hitems : ∀ s∈settings,s∈w.list.items)
    (hfull : ∀ s∈settings,FullWidth s)
    (hmembers : List.Forall₂ (IsMember chars) settings members) :
    ∀ m∈members,(∃ key,m.string=some key) ∧ WritesBytes env v m := by
  induction hmembers with
  | nil => exact fun m hm => absurd hm List.not_mem_nil
  | @cons s member rest later hmember _ ih =>
    intro m hm
    rcases List.mem_cons.mp hm with rfl|hm
    · have hs := hitems s List.mem_cons_self
      have hsize : ∀ size,prvTypeToSize s.type=some size → s.maxSize=size :=
        fun _ h => maxSize_of_type hw.regs hs h
      have hok := hw.records s hs
      have hfull := hfull s List.mem_cons_self
      obtain ⟨setting,hsetting,rfl⟩ := hmember
      obtain ⟨other,hother,_,himport⟩ := export_import chars env.charIsSigned hsize hok hfull
      cases hsetting.symm.trans hother
      have hstring : (setting.named s.key).string=some s.key := by
        cases setting
        rfl
      refine ⟨⟨s.key,hstring⟩,fun key t hkey ht hnone => ?_⟩
      cases hstring.symm.trans hkey
      obtain ⟨u,hu,hreg⟩ :=
        getByKey_of_registrations (hv.regs.trans hw.regs.symm) (getByKey_of_mem hs)
      cases ht.symm.trans hu
      have htype : t.type=s.type := congrArg Registration.type hreg
      rw [htype,importBytes_named,himport] at hnone
      exact (reimported_fits hsize hok hfull).1 (Option.some.inj (Except.ok.inj hnone))
    · exact ih (fun x hx => hitems x (List.mem_cons_of_mem s hx))
        (fun x hx => hfull x (List.mem_cons_of_mem s hx)) m hm

section Steps

variable (hsave : ∀ n,env.saveResult n=0) (hq : Passive env.callbacks)
  (hsaveOther : ∀ n,other.saveResult n=0) (hqOther : Passive other.callbacks)
  (hpure : PureSetup setup)

include hsave hq hsaveOther hqOther hpure

/-- A delivery of what comes back keeps the devices in step, and afterwards
they have the same values. -/
theorem synced_deliver {state after : World×World} (hw : Synced setup state) {chars : Mem}
    {acknowledged : Bool}
    (hc : ∀ s∈flagged state.1,FullWidth s ∧ (Faithful s ∨ Shielded stack state.2 s))
    (h : deliver env other stack chars alwaysMarkChanged acknowledged state.1 state.2=.ok after) :
    Synced setup after ∧ ∀ key,ram after.2 (.value,key)=ram after.1 (.value,key) := by
  have hfull : ∀ s∈flagged state.1,FullWidth s := fun s hs => (hc s hs).1
  have hrunning := hw.source.serving.running
  have hreplica := hw.replica.serving.running
  obtain ⟨object,next,hobject,himport,hvalues⟩ := import_changed hsaveOther hqOther hrunning
    hw.accepted hreplica hfull hw.covered stack chars alwaysMarkChanged
  have hsame := hvalues.mpr fun s hs => (hc s hs).2
  obtain ⟨members,hmembers,rfl⟩ := jsonObject_ok_iff.mp hobject
  have hwritten : ∀ m∈members,(∃ key,m.string=some key) ∧ WritesBytes other state.2 m :=
    export_members hrunning hreplica (fun _ hs => List.mem_of_mem_filter hs) hfull hmembers
  have hnext : Settled setup next := settled_setAll hsaveOther hqOther hw.replica
    (fun m hm => (hwritten m hm).1) (fun m hm => (hwritten m hm).2) himport
  unfold deliver at h
  rw [hobject] at h
  dsimp only [bind,Except.bind] at h
  rw [himport] at h
  dsimp only at h
  split at h
  · obtain ⟨cleared,hclear,h⟩ := bind_eq_ok.mp h
    cases h
    obtain ⟨hsource,haccepted,hkept⟩ :=
      settled_cleared hsave hq hpure hw.source hw.accepted hclear
    exact ⟨⟨hsource,haccepted,hnext,fun key => .inr ((hkept key).trans (hsame key).symm)⟩,
      fun key => (hsame key).trans (hkept key).symm⟩
  · cases h
    exact ⟨⟨hw.source,hw.accepted,hnext,fun key => .inr (hsame key).symm⟩,hsame⟩

/-- An orderly step keeps the devices in step. -/
theorem synced_step {state after : World×World} {event : ReplicaEvent} (hw : Synced setup state)
    (hc : Orderly env setup state event)
    (h : replicaStep env other setup state event=some after) : Synced setup after := by
  cases event with
  | source action =>
    obtain ⟨next,hstep,rfl⟩ := Option.map_eq_some_iff.mp h
    obtain ⟨hsource,haccepted,hcovered⟩ :=
      run_invariant (I:=fun u => Settled setup u ∧ StoreAccepted setup u ∧ Covers state.2 u)
        (fun _ _ _ hu hc hs => ⟨settled_move hsave hq hu.1 hc.1 hs,
          storeAccepted_move hq hpure hu.1 hu.2.1 hs,covers_move hsave hq hu.1 hu.2.2 hc.2 hs⟩)
        ⟨hw.source,hw.accepted,hw.covered⟩ hc (run_moves hstep)
    exact ⟨hsource,haccepted,hw.replica,hcovered⟩
  | deliver stack chars alwaysMarkChanged acknowledged =>
    exact (synced_deliver hsave hq hsaveOther hqOther hpure hw hc (toOption_eq_some.mp h)).1
  | restart =>
    obtain ⟨next,hboot,rfl⟩ := Option.map_eq_some_iff.mp h
    have hmove : moveStep other setup state.2 .reboot=some next := hboot
    obtain ⟨_,hram,_⟩ := unnoticed hqOther hw.replica (fun _ _ hcall => by cases hcall) hmove
    refine ⟨hw.source,hw.accepted,settled_of_booted (reboot_ok (toOption_eq_some.mp hboot)),?_⟩
    exact fun key => (hw.covered key).imp_right fun hsame => hsame.trans (congrFun hram _).symm

end Steps

/-- For every two devices with the same settings that start with the same
values, with storage that does not fail, callbacks that only look and pure
validate callbacks, and every order of calls, imports, commands, loads and
restarts of the first, restarts of the second and deliveries between them, heard
of or not, in which the first clears no flag by itself: a setting that has no
flag has the same value on both, so that nothing is lost, and one more delivery
succeeds and leaves them with the same values exactly when each changed one comes
back as it was or is saved by a validate callback. -/
theorem replica_keeps_up (env other : Env) (hsave : ∀ n,env.saveResult n=0)
    (hquiet : ∀ n,env.react n=[]) (hsaveOther : ∀ n,other.saveResult n=0)
    (hquietOther : ∀ n,other.react n=[]) (setup : Setup) (hpure : PureSetup setup)
    (nvs entries : Entries) (haccepted : StoredAccepted setup nvs) (start replica w v : World)
    (hboot : boot env setup nvs=.ok start) (hbootOther : boot other setup entries=.ok replica)
    (hsame : ∀ key,ram start (.value,key)=ram replica (.value,key)) (events : List ReplicaEvent)
    (hrun : run (replicaStep env other setup) (start,replica) events=some (w,v))
    (horderly : Meets (replicaStep env other setup) (Orderly env setup) (start,replica) events) :
    (∀ key,hasChanged w key ∨ ram w (.value,key)=ram v (.value,key)) ∧
    ∀ stack chars alwaysMarkChanged,(∀ s∈flagged w,FullWidth s) →
      ∃ object next,userSettingsGetChangedJson chars w=.ok object ∧
        userSettingsSetFromJson other stack v (some object) alwaysMarkChanged=.ok (next,0) ∧
        ((∀ key,ram next (.value,key)=ram w (.value,key)) ↔
          ∀ s∈flagged w,Faithful s ∨ Shielded stack v s) := by
  have hq := passive_callbacks hquiet
  have hqOther := passive_callbacks hquietOther
  have hb := reboot_ok hboot
  have hstart : Synced setup (start,replica) :=
    ⟨settled_of_booted hb,storeAccepted_booted hpure haccepted hb,
      settled_of_booted (reboot_ok hbootOther),fun key => .inr (hsame key)⟩
  have hend : Synced setup (w,v) :=
    run_invariant (fun _ _ _ hu hc hs => synced_step hsave hq hsaveOther hqOther hpure hu hc hs)
      hstart horderly hrun
  refine ⟨hend.covered,fun stack chars alwaysMarkChanged hfull => ?_⟩
  exact import_changed hsaveOther hqOther hend.source.serving.running hend.accepted
    hend.replica.serving.running hfull hend.covered stack chars alwaysMarkChanged

/-- A text arrives at a second device, which restarts then. -/
theorem replica_keeps_up_with_text :
    ∃ start w v,boot calm exportDevice ∅=.ok start ∧
      run (replicaStep calm calm exportDevice) (start,start)
        [.source (.device (.store (.set (.id 2) (memOf [104,105,0]) 3))),
          .deliver (fun _ => 255) (fun _ => 255) false true,.restart]=some (w,v) ∧
      ram v (.value,⟨CString.ascii ['d'],by decide⟩)=some [104,105,0] := by
  let set : Action := .device (.store (.set (.id 2) (memOf [104,105,0]) 3))
  let events : List ReplicaEvent :=
    [.source set,.deliver (fun _ => 255) (fun _ => 255) false true,.restart]
  let text : CString := ⟨CString.ascii ['d'],by decide⟩
  have hdevices : ∃ start first s w v,boot calm exportDevice ∅=.ok start ∧
      actionStep calm exportDevice start set=some first ∧
      set.moves calm start=[.call (.id 2) (.set (memOf [104,105,0]) 3)] ∧
      flagged first=[s] ∧ s.isSet=true ∧ s.type=.str ∧ s.value=[104,105,0] ∧
      run (replicaStep calm calm exportDevice) (start,start) events=some (w,v) ∧
      ram w (.value,text)=some [104,105,0] ∧ ram w (.changed,text)=none :=
    ⟨_,_,_,_,_,rfl,rfl,rfl,rfl,rfl,rfl,rfl,rfl,rfl,rfl⟩
  obtain ⟨start,first,s,w,v,hboot,hfirst,hmoves,hflagged,hset,htype,hvalue,hrun,hshown,hmark⟩ :=
    hdevices
  have hfull : FullWidth s := by
    refine ⟨hset,?_⟩
    rw [htype,hvalue]
    exact ⟨⟨[104,105],by decide⟩,rfl⟩
  have horderly : Meets (replicaStep calm calm exportDevice) (Orderly calm exportDevice)
      (start,start) events := by
    refine ⟨?_,fun state hstate => ⟨?_,fun _ _ => ⟨trivial,fun _ _ => trivial⟩⟩⟩
    · change Meets (moveStep calm exportDevice) (KeepsMarks calm) start (set.moves calm start)
      rw [hmoves]
      exact ⟨⟨fun _ _ _ hlose => absurd hlose.1 (by decide),fun _ ⟨_,_,_,h⟩ => h⟩,
        fun _ _ => trivial⟩
    · obtain ⟨next,hnext,rfl⟩ := Option.map_eq_some_iff.mp hstate
      cases hfirst.symm.trans hnext
      change ∀ s∈flagged first,_
      rw [hflagged]
      exact List.forall_mem_singleton.mpr ⟨hfull,.inl (faithful_of_text htype)⟩
  obtain ⟨hcovered,_⟩ := replica_keeps_up calm calm (fun _ => rfl) (fun _ => rfl) (fun _ => rfl)
    (fun _ => rfl) exportDevice pure_exportDevice ∅ ∅ (storedAccepted_empty _)
    start start w v hboot hboot (fun _ => rfl) events hrun horderly
  have hunmarked : ¬hasChanged w text := by
    intro hflag
    cases hmark.symm.trans hflag
  exact ⟨start,w,v,hboot,hrun,((hcovered text).resolve_left hunmarked).symm.trans hshown⟩

end UserSettings.Replicas
