import UserSettings.Changed
import UserSettings.Refresh
import UserSettings.RoundTrip

/-!
# An export of the changed settings

The flags of a device and the export of the settings that have them are made
for each other: as long as nothing is cleared, a setting without a flag has
kept its value. So whoever had the same values before is up to date when the
changed settings are imported, with the exceptions that every export has.
-/

namespace UserSettings.Delta

open Bytes Settings Storage Store Effects Setters Load Records Cells Outcomes Operations
open Transition Json Durability Validity Moves Iteration Changed Reload Refinement Refresh
open Export RoundTrip StorageUse

/-- A device that answers requests and whose storage is up to date. -/
structure Settled (setup : Setup) (w : World) : Prop where
  /-- The device serves. -/
  serving : Serving setup w
  /-- Both copies of all cells agree. -/
  agree : ram w=stored w

/-- Settings without a flag have the value of an earlier state. -/
def Covers (before w : World) : Prop :=
  ∀ key,hasChanged w key ∨ ram w (.value,key)=ram before (.value,key)

/-- A move that writes no bytes over nothing it should keep and clears no flag. -/
def KeepsMarks (env : Env) (w : World) (move : Move) : Prop :=
  WritesSomething env w move ∧ ∀ key,¬Clears key w move

variable {env : Env} {setup : Setup} {before w v next : World} {s t : UserSetting}

/-- A start leads to a settled device. -/
theorem settled_of_booted (h : Booted setup w next) : Settled setup next :=
  ⟨serving_of_booted h,booted_ram h⟩

/-- A settled device is steady. -/
theorem Settled.steady (h : Settled setup w) : Steady setup w :=
  ⟨h.serving.running,fun key => congrFun h.agree (.changed,key)⟩

section Moves

variable (hsave : ∀ n,env.saveResult n=0) (hq : Passive env.callbacks)

include hsave hq

omit hsave in
/-- A load or a start changes nothing on a settled device. -/
theorem unnoticed (hw : Settled setup w) {move : Move}
    (hmove : ∀ target call,move≠.call target call) (h : moveStep env setup w move=some next) :
    registrations next=registrations w ∧ ram next=ram w ∧ stored next=stored w := by
  cases move with
  | call target call => exact absurd rfl (hmove target call)
  | reboot =>
    have hbooted := reboot_ok (toOption_eq_some.mp h)
    have hstored := booted_stored hbooted hw.serving.running.regs
    exact ⟨(booted_registrations hbooted).trans hw.serving.running.regs.symm,
      (booted_ram hbooted).trans (hstored.trans hw.agree.symm),hstored⟩
  | load =>
    obtain ⟨list,hload,hitems⟩ := refresh_load hq hw.serving.isInited hw.serving.running.isLoaded
    obtain ⟨⟨loaded,ret⟩,hrun,rfl⟩ := Option.map_eq_some_iff.mp h
    cases hload.symm.trans (toOption_eq_some.mp hrun)
    have hregs : registrations { w with list := list, trace := w.trace++loadNotices w }=
      registrations w := registrations_refreshed hitems
    exact ⟨hregs,ram_refreshed_of_agree hitems hw.agree,stored_of_registrations hregs rfl⟩

/-- A move that deletes no entry keeps a device settled. -/
theorem settled_move (hw : Settled setup w) {move : Move} (hc : WritesSomething env w move)
    (h : moveStep env setup w move=some next) : Settled setup next := by
  refine ⟨serving_move hq hw.serving h,?_⟩
  cases move with
  | call target call =>
    exact (step_agree_iff hq hsave hw.serving.running hw.agree (call.op target)).mpr hc next h
  | reboot => exact booted_ram (reboot_ok (toOption_eq_some.mp h))
  | load =>
    obtain ⟨_,hram,hstored⟩ := unnoticed hq hw (fun _ _ hcall => by cases hcall) h
    exact hram.trans (hw.agree.trans hstored.symm)

/-- A set call that changes a value marks the setting. -/
theorem set_marks (hs : w.getByKey s.key=some s) {data : Mem} {len : ℕ}
    (h : ram (prvUserSettingsSet env env.callbacks w s data len).1 (.value,s.key)≠
      ram w (.value,s.key)) :
    hasChanged (prvUserSettingsSet env env.callbacks w s data len).1 s.key := by
  refine (hasChanged_set hsave hq hs).mpr (.inl ?_)
  by_contra hw
  exact h (by rw [userSettingsSet_keeps hw])

/-- A call that changes the value of its setting marks it. -/
theorem visit_marks (call : SettingCall) (hs : w.getByKey s.key=some s)
    (h : ram (call.visit env w s) (.value,s.key)≠ram w (.value,s.key)) :
    hasChanged (call.visit env w s) s.key := by
  have hflag : ∀ flag,ram (prvSetChangedRecentlyFlag env env.callbacks w s flag).1
      (.value,s.key)=ram w (.value,s.key) := by
    intro flag
    have hcells : ram (prvSetChangedRecentlyFlag env env.callbacks w s flag).1=_ ∧
        stored (prvSetChangedRecentlyFlag env env.callbacks w s flag).1=_ := flag_cells hs flag
    rw [hcells.1]
    exact Function.update_of_ne (cell_ne .value .changed (by decide) s.key s.key) ..
  cases call with
  | set data len => exact set_marks hsave hq hs h
  | setDefault data len =>
    have hsame : CellsUntouched .value w
        (prvUserSettingsSetDefault env env.callbacks w s data len).1 :=
      untouched_setDefault (by decide) hs
    exact absurd (hsame.inRam s.key) h
  | restoreDefault =>
    change ram (prvSettingsRestore env env.callbacks w s) (.value,s.key)≠_ at h
    change hasChanged (prvSettingsRestore env env.callbacks w s) s.key
    unfold prvSettingsRestore at h ⊢
    split
    · rename_i hset
      rw [if_pos hset] at h
      exact set_marks hsave hq hs h
    · rename_i hset
      rw [if_neg hset] at h
      exact absurd rfl h
  | setChanged => exact absurd (hflag true) h
  | clearChanged => exact absurd (hflag false) h

/-- A move that changes the value of a setting marks it. -/
theorem move_marks (hw : Settled setup w) {move : Move} {key : CString}
    (h : moveStep env setup w move=some next)
    (hne : ram next (.value,key)≠ram w (.value,key)) : hasChanged next key := by
  cases move with
  | call target call =>
    obtain ⟨_,s,hs,rfl⟩ := moveStep_call.mp h
    have hfound := getByKey_of_find hs
    by_cases hk : key=s.key
    · subst hk
      exact visit_marks hsave hq call hfound hne
    · have honly : OnlyAt s.key w (call.visit env w s) := visit_onlyAt hq _ hfound
      exact absurd (honly.cells (.value,key) hk).1 hne
  | load | reboot =>
    have hsame := (unnoticed hq hw (fun _ _ hcall => by cases hcall) h).2.1
    exact absurd (congrFun hsame _) hne

/-- A move without clears keeps what the flags cover. -/
theorem covers_move (hw : Settled setup w) (hcovers : Covers before w) {move : Move}
    (hc : ∀ key,¬Clears key w move) (h : moveStep env setup w move=some next) :
    Covers before next := by
  intro key
  by_cases hsame : ram next (.value,key)=ram w (.value,key)
  · refine (hcovers key).imp (fun hflag => ?_) hsame.trans
    exact (flag_step hsave hq hw.steady h).mpr (.inr ⟨hflag,hc key⟩)
  · exact .inl (move_marks hsave hq hw h hsame)

omit hsave in
/-- A move keeps all bytes accepted. -/
theorem storeAccepted_move (hpure : PureSetup setup) (hw : Settled setup w)
    (ha : StoreAccepted setup w) {move : Move} (h : moveStep env setup w move=some next) :
    StoreAccepted setup next := by
  cases move with
  | call target call =>
    exact storeAccepted_effects (step_checked hq h) ha
  | reboot => exact storeAccepted_booted hpure ha.stored (reboot_ok (toOption_eq_some.mp h))
  | load =>
    obtain ⟨list,hload,hitems⟩ := refresh_load hq hw.serving.isInited hw.serving.running.isLoaded
    obtain ⟨⟨loaded,ret⟩,hrun,rfl⟩ := Option.map_eq_some_iff.mp h
    cases hload.symm.trans (toOption_eq_some.mp hrun)
    refine ⟨(registrations_refreshed hitems).trans ha.regs,fun t ht => ?_,ha.stored⟩
    obtain ⟨s,hs,rfl⟩ := List.mem_map.mp (hitems ▸ ht)
    have hreg : registration s∈registered setup := ha.regs ▸ List.mem_map_of_mem hs
    refine (loadRecord_keeps (P:=fun u => RecordAccepted u ∧ registration u=registration s)
      ?_ ?_ ?_ ⟨ha.records s hs,rfl⟩).1
    · intro u entry hu hlook _ hf
      have hentry := ha.stored (registration u) (hu.2 ▸ hreg) .value (by decide) entry hlook
      exact ⟨recordAccepted_storeValue hu.1 hf hentry,hu.2⟩
    · intro u entry hu hlook _ hf
      have hentry := ha.stored (registration u) (hu.2 ▸ hreg) .default (by decide) entry hlook
      exact ⟨recordAccepted_storeDefault hu.1 hf hentry,hu.2⟩
    · exact fun u flag hu => ⟨⟨hu.1.pure,hu.1.value,hu.1.default⟩,hu.2⟩

end Moves

/-- The value of a record is that of a set one when its bytes are. -/
theorem content_value_iff (hs : RecordOk s) (hset : s.isSet=true) (ht : RecordOk t) :
    content t .value=content s .value ↔ t.value=s.value := by
  have hvalue : content s .value=some s.value := if_pos hset
  rw [hvalue]
  unfold content
  dsimp only
  constructor
  · intro h
    split at h
    · exact Option.some.inj h
    · cases h
  · intro h
    have hpos : 0<t.dataLen := by
      rw [←length_value ht,h,length_value hs]
      exact hs.value.isSet_iff.mp hset
    rw [if_pos (ht.value.isSet_iff.mpr hpos),h]

/-- Accepted values are valid wherever they are. -/
theorem validates_accepted (h : RecordAccepted s) (hset : s.isSet=true) (stack : Mem) :
    s.validates (stack.write 0 s.value) s.value.length=true := by
  rw [validates_eq_accepts h.pure,Importing.read_stack]
  exact h.value hset

/-- The export of the changed settings, imported by a device that has the
values of the others. -/
theorem import_changed {other : Env} (hsave : ∀ n,other.saveResult n=0)
    (hq : Passive other.callbacks) (hw : Running setup w) (ha : StoreAccepted setup w)
    (hv : Running setup v) (hfull : ∀ s∈flagged w,FullWidth s)
    (hcovers : ∀ key,hasChanged w key ∨ ram w (.value,key)=ram v (.value,key))
    (stack chars : Mem) (alwaysMarkChanged : Bool) :
    ∃ object next,userSettingsGetChangedJson chars w=.ok object ∧
      userSettingsSetFromJson other stack v (some object) alwaysMarkChanged=.ok (next,0) ∧
      ((∀ key,ram next (.value,key)=ram w (.value,key)) ↔
        ∀ s∈flagged w,Faithful s ∨ Shielded stack v s) := by
  have hitems : ∀ s∈flagged w,s∈w.list.items := fun _ hs => List.mem_of_mem_filter hs
  have hsize : ∀ s∈flagged w,∀ size,prvTypeToSize s.type=some size → s.maxSize=size :=
    fun s hs _ h => maxSize_of_type hw.regs (hitems s hs) h
  have hterminated : ∀ s∈flagged w,Terminated chars s := by
    intro s hs
    obtain ⟨setting,hok,_⟩ :=
      export_import chars other.charIsSigned (hsize s hs) (hw.records s (hitems s hs)) (hfull s hs)
    exact jsonFromSetting_ok.mp ⟨setting,hok⟩
  obtain ⟨members,hmembers,hobject⟩ := jsonObject_ok hterminated
  have hnodup : ((flagged w).map UserSetting.key).Nodup :=
    w.list.keysNodup.sublist (List.filter_sublist.map UserSetting.key)
  have hsettings : ∀ s∈flagged w,registration s∈registered setup ∧ RecordOk s ∧ FullWidth s ∧
      ∀ size,prvTypeToSize s.type=some size → s.maxSize=size := fun s hs =>
    ⟨hw.regs ▸ List.mem_map_of_mem (hitems s hs),hw.records s (hitems s hs),hfull s hs,hsize s hs⟩
  obtain ⟨next,himport,hnext,hothers,hvalues⟩ :=
    import_all hsave hq hmembers hnodup hsettings hv
  refine ⟨.createObject members,next,hobject,himport,?_⟩
  have hone : ∀ s∈flagged w,ram next (.value,s.key)=ram w (.value,s.key) ↔
      Faithful s ∨ Shielded stack v s := by
    intro s hs
    obtain ⟨t,now,ht,hreg,hnow,hvalue⟩ := hvalues s hs
    have hset := (hfull s hs).isSet
    have hfound : w.getByKey s.key=some s := getByKey_of_mem (hitems s hs)
    have hvalid := validates_accepted (ha.records s (hitems s hs)) hset stack
    rw [ram_eq hnow,ram_eq hfound,content_value_iff (hw.records s (hitems s hs)) hset
      (hnext.records.getByKey hnow),hvalue]
    exact importedValue_eq_iff (hsize s hs) (hfull s hs) ht hreg hvalid
  constructor
  · exact fun h s hs => (hone s hs).mp (h s.key)
  · intro h key
    by_cases hk : key∈(flagged w).map UserSetting.key
    · obtain ⟨s,hs,rfl⟩ := List.mem_map.mp hk
      exact (hone s hs).mpr (h s hs)
    · -- the import leaves a setting without a flag alone
      have hunmarked : ¬hasChanged w key := by
        intro hflag
        cases hfound : w.getByKey key with
        | none =>
          unfold hasChanged ram at hflag
          rw [hfound] at hflag
          cases hflag
        | some s =>
          have hkey := key_of_getByKey hfound
          subst hkey
          exact hk (List.mem_map_of_mem
            (List.mem_filter.mpr ⟨(getByKey_some hfound).1,(hasChanged_iff hfound).mp hflag⟩))
      have hleft : ram next (.value,key)=ram v (.value,key) := by
        unfold ram
        dsimp only
        rw [hothers key hk]
      exact hleft.trans ((hcovers key).resolve_left hunmarked).symm

/-- For every device with storage that does not fail and callbacks that only
look, every run from one of its states on (calls, imports, commands, loads and
reboots, but no clear of a flag and no write of zero bytes over something), and
every device with the same settings and the values of that state: the export of
the changed settings succeeds if they have values of full width, its import
returns zero, and afterwards both devices have the same values in all settings
exactly when each changed one comes back as it was or is saved by a validate
callback. -/
theorem changed_export_completes (env other : Env) (hsave : ∀ n,env.saveResult n=0)
    (hquiet : ∀ n,env.react n=[]) (hsaveOther : ∀ n,other.saveResult n=0)
    (hquietOther : ∀ n,other.react n=[]) (setup : Setup) (hpure : PureSetup setup)
    (nvs : Entries) (haccepted : StoredAccepted setup nvs) (start before w v : World)
    (earlier later : List Action) (hboot : boot env setup nvs=.ok start)
    (hbefore : run (actionStep env setup) start earlier=some before)
    (hwrites : Meets (moveStep env setup) (WritesSomething env) start
      (allMoves env setup start earlier))
    (hlater : run (actionStep env setup) before later=some w)
    (hmarks : Meets (moveStep env setup) (KeepsMarks env) before
      (allMoves env setup before later))
    (hv : Running setup v) (hsame : ∀ key,ram v (.value,key)=ram before (.value,key))
    (hfull : ∀ s∈flagged w,FullWidth s) (stack chars : Mem) (alwaysMarkChanged : Bool) :
    ∃ object next,userSettingsGetChangedJson chars w=.ok object ∧
      userSettingsSetFromJson other stack v (some object) alwaysMarkChanged=.ok (next,0) ∧
      ((∀ key,ram next (.value,key)=ram w (.value,key)) ↔
        ∀ s∈flagged w,Faithful s ∨ Shielded stack v s) := by
  have hq := passive_callbacks hquiet
  have hb := reboot_ok hboot
  have hmiddle : Settled setup before ∧ StoreAccepted setup before :=
    run_invariant (I:=fun u => Settled setup u ∧ StoreAccepted setup u)
      (fun _ _ _ hu hc hs => ⟨settled_move hsave hq hu.1 hc hs,
        storeAccepted_move hq hpure hu.1 hu.2 hs⟩)
      ⟨settled_of_booted hb,storeAccepted_booted hpure haccepted hb⟩ hwrites (run_allMoves hbefore)
  have hcovers : Covers before before := fun _ => .inr rfl
  have hfinal : Settled setup w ∧ StoreAccepted setup w ∧ Covers before w :=
    run_invariant (I:=fun u => Settled setup u ∧ StoreAccepted setup u ∧ Covers before u)
      (fun _ _ _ hu hc hs => ⟨settled_move hsave hq hu.1 hc.1 hs,
        storeAccepted_move hq hpure hu.1 hu.2.1 hs,covers_move hsave hq hu.1 hu.2.2 hc.2 hs⟩)
      ⟨hmiddle.1,hmiddle.2,hcovers⟩ hmarks (run_allMoves hlater)
  exact import_changed hsaveOther (passive_callbacks hquietOther) hfinal.1.serving.running
    hfinal.2.1 hv hfull (fun key => (hfinal.2.2 key).imp_right fun h => h.trans (hsame key).symm)
    stack chars alwaysMarkChanged

/-- Texts are imported as they were exported. -/
theorem faithful_of_text {s : UserSetting} (htype : s.type=.str) : Faithful s := by
  unfold Faithful
  rw [htype]
  trivial

/-- The device for exports has no validate callbacks. -/
theorem pure_exportDevice : PureSetup exportDevice := by
  intro r hr validate hv
  rcases List.mem_pair.mp hr with rfl|rfl <;> cases hv

/-- A text is set on one of two new devices and brought to the other one. -/
theorem changed_export_on_devices :
    ∃ start w object next,boot calm exportDevice ∅=.ok start ∧
      run (actionStep calm exportDevice) start
        [.device (.store (.set (.id 2) (memOf [104,105,0]) 3))]=some w ∧
      userSettingsGetChangedJson (fun _ => 255) w=.ok object ∧
      userSettingsSetFromJson calm (fun _ => 255) start (some object) true=.ok (next,0) ∧
      ∀ key,ram next (.value,key)=ram w (.value,key) := by
  let set : Action := .device (.store (.set (.id 2) (memOf [104,105,0]) 3))
  have hdevice : ∃ start w s,boot calm exportDevice ∅=.ok start ∧
      run (actionStep calm exportDevice) start [set]=some w ∧
      allMoves calm exportDevice start [set]=[.call (.id 2) (.set (memOf [104,105,0]) 3)] ∧
      flagged w=[s] ∧ s.isSet=true ∧ s.type=.str ∧ s.value=[104,105,0] :=
    ⟨_,_,_,rfl,rfl,rfl,rfl,rfl,rfl,rfl⟩
  obtain ⟨start,w,s,hboot,hrun,hmoves,hflagged,hset,htype,hvalue⟩ := hdevice
  have hfull : FullWidth s := by
    refine ⟨hset,?_⟩
    rw [htype,hvalue]
    exact ⟨⟨[104,105],by decide⟩,rfl⟩
  have hmarks : Meets (moveStep calm exportDevice) (KeepsMarks calm) start
      (allMoves calm exportDevice start [set]) := by
    rw [hmoves]
    exact ⟨⟨fun _ _ _ hlose => absurd hlose.1 (by decide),fun _ ⟨_,_,_,h⟩ => h⟩,
      fun _ _ => trivial⟩
  obtain ⟨object,next,hobject,himport,hsame⟩ := changed_export_completes calm calm (fun _ => rfl)
    (fun _ => rfl) (fun _ => rfl) (fun _ => rfl) exportDevice pure_exportDevice ∅
    (storedAccepted_empty _) start start w start [] [set] hboot rfl trivial hrun
    hmarks (running_of_booted (reboot_ok hboot)) (fun _ => rfl)
    (by rw [hflagged]; exact List.forall_mem_singleton.mpr hfull) (fun _ => 255) (fun _ => 255) true
  refine ⟨start,w,object,next,hboot,hrun,hobject,himport,hsame.mpr ?_⟩
  rw [hflagged]
  exact List.forall_mem_singleton.mpr (.inl (faithful_of_text htype))

end UserSettings.Delta
