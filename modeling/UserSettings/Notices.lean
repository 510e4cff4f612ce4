import UserSettings.Moves
import UserSettings.Lifecycle
import UserSettings.Visits

/-!
# Change notifications

With callbacks that only look, the trace of their calls is decided by the
values alone: every time the stored value of a setting becomes another one,
the global callback and that of the setting are called, once and in this
order, and can read the new value; nothing else calls them. Whoever copies the
values once and reads a setting again at each call therefore has the values.
-/

namespace UserSettings.Notices

open Bytes Settings Storage Store Effects Setters Reactions Load Operations Transition
open Records Cells Outcomes Json Commands Moves Lifecycle Visits

/-- The stored value of a setting: whether it is set, and its bytes in use. -/
def storedValue (w : World) (key : CString) : Option (List UInt8) := ram w (.value,key)

/-- The settings whose stored value is another one, in registration order. -/
def changes (w next : World) : List UserSetting :=
  next.list.items.filter fun s => decide (storedValue next s.key≠storedValue w s.key)

/-- The calls that announce the stored value of a setting: of the global
callback and then of its own, if they are registered. -/
def announce (next : World) (s : UserSetting) : List Event :=
  (if next.globalOnChangeCb.isSome then [⟨.global,s.id,s.key,storedValue next s.key⟩] else [])++
    (if s.onChangeCb.isSome then [⟨.own,s.id,s.key,storedValue next s.key⟩] else [])

/-- The calls that announce all changes between two states. -/
def announced (w next : World) : List Event := (changes w next).flatMap (announce next)

/-- The calls that announce what a move changes. -/
def announcedBy (env : Env) (setup : Setup) (w : World) (move : Move) : List Event :=
  match moveStep env setup w move with
  | none => []
  | some next => announced w next

/-- Read a setting again when it is announced. -/
def observe (copy : CString → Option (List UInt8)) (event : Event) :
    CString → Option (List UInt8) :=
  Function.update copy event.key event.shown

variable {env : Env} {setup : Setup} {w next : World} {s t : UserSetting} {data : Mem} {len : ℕ}

/-- At most one listed record passes a test that only the record under a key can pass. -/
theorem filter_eq_of_key {items : List UserSetting} (hn : (items.map UserSetting.key).Nodup)
    (ht : t∈items) {p : UserSetting → Bool} (hp : ∀ x∈items,x.key≠t.key → p x=false) :
    items.filter p=if p t then [t] else [] := by
  induction items with
  | nil => cases ht
  | cons x rest ih =>
    simp only [List.map_cons,List.nodup_cons] at hn
    have hnone : ∀ {k : CString},k∉rest.map UserSetting.key → (∀ y∈rest,y.key≠k → p y=false) →
        rest.filter p=[] := by
      intro k hk hrest
      rw [List.filter_eq_nil_iff]
      intro y hy
      have hne : y.key≠k := fun h => hk (h ▸ List.mem_map_of_mem hy)
      rw [hrest y hy hne]
      exact Bool.false_ne_true
    have hrest : ∀ y∈rest,y.key≠t.key → p y=false :=
      fun y hy => hp y (List.mem_cons_of_mem x hy)
    rcases List.mem_cons.mp ht with rfl|hlater
    · rw [List.filter_cons,hnone hn.1 hrest]
    · have hne : x.key≠t.key := fun h => hn.1 (h ▸ List.mem_map_of_mem hlater)
      have hx : p x=false := hp x List.mem_cons_self hne
      rw [List.filter_cons,hx]
      exact ih hn.2 hlater hrest

/-- A step that touches one setting announces at most this one. -/
theorem announced_of_onlyAt (h : OnlyAt s.key w next) (ht : next.getByKey s.key=some t) :
    announced w next=
      if storedValue next s.key=storedValue w s.key then [] else announce next t := by
  have hkey : t.key=s.key := key_of_getByKey ht
  have hother : ∀ x∈next.list.items,x.key≠t.key →
      decide (storedValue next x.key≠storedValue w x.key)=false := by
    intro x _ hx
    have hcell := (h.cells (.value,x.key) (fun he => hx (he.trans hkey.symm))).1
    exact decide_eq_false (not_not.mpr hcell)
  unfold announced changes
  rw [filter_eq_of_key next.list.keysNodup (getByKey_some ht).1 hother,hkey]
  by_cases hsame : storedValue next s.key=storedValue w s.key
  · rw [if_pos hsame,decide_eq_false (not_not.mpr hsame)]
    rfl
  · rw [if_neg hsame,decide_eq_true hsame,if_pos rfl,List.flatMap_singleton]

/-- The stored value of a found record. -/
theorem storedValue_eq (hs : w.getByKey s.key=some t) :
    storedValue w s.key=content t .value := ram_eq hs .value

/-- A step that touches one setting and leaves its value announces nothing. -/
theorem announced_nil (h : OnlyAt s.key w next) (hs : w.getByKey s.key=some s)
    (ht : next.getByKey s.key=some t) (hc : content t .value=content s .value) :
    announced w next=[] := by
  rw [announced_of_onlyAt h ht,storedValue_eq ht,storedValue_eq hs,if_pos hc]

/-- A value that differs from the present one gives another stored value. -/
theorem content_differs (hok : RecordOk s) (hd : ¬SameValue s data len) :
    content s .value≠some (bytesAt data len) := by
  intro hc
  dsimp only [content] at hc
  split at hc
  · exact hd ((sameValue_iff hok).mpr (Option.some.inj hc).symm)
  · cases hc

/-- The record of a written value has it as its content. -/
theorem content_storeValue (flag : Bool) {bytes : List UInt8} (hf : bytes.length ≤ s.maxSize) :
    content ((storeFlag flag).apply ((storeValue bytes).apply s)) .value=some bytes :=
  congrArg some (Buffer.take_write hf)

/-- The calls that the setter makes show the new value. -/
theorem notices_written (hl : w.isLoaded=true) (hs : w.getByKey s.key=some s)
    {bytes : List UInt8} (hf : bytes.length ≤ s.maxSize) :
    notices (w.modify s.key (storeValue bytes)) s=
      (if w.globalOnChangeCb.isSome then [⟨.global,s.id,s.key,some bytes⟩] else [])++
        (if s.onChangeCb.isSome then [⟨.own,s.id,s.key,some bytes⟩] else []) := by
  have hshown : (prvUserSettingGet ((w.modify s.key (storeValue bytes)).deref s)).map
      (fun p => bytesAt p.1 p.2)=some bytes := by
    rw [deref_eq (modify_self (storeValue bytes) hs)]
    change some (bytesAt (s.data.write bytes).mem bytes.length)=some bytes
    rw [Buffer.bytesAt_mem _ hf,Buffer.take_write hf]
  have hmodify : (w.modify s.key (storeValue bytes)).isLoaded=true := hl
  unfold notices
  dsimp only
  rw [hshown,hmodify,Bool.and_true,Bool.and_true]
  rfl

/-- They are those that announce the new value. -/
theorem notices_eq (hl : w.isLoaded=true) (hs : w.getByKey s.key=some s) {bytes : List UInt8}
    (hf : bytes.length ≤ s.maxSize) {flag : Bool}
    (hg : next.globalOnChangeCb=w.globalOnChangeCb)
    (ht : next.getByKey s.key=
      some ((storeFlag flag).apply ((storeValue bytes).apply s))) :
    notices (w.modify s.key (storeValue bytes)) s=
      announce next ((storeFlag flag).apply ((storeValue bytes).apply s)) := by
  have hvalue : storedValue next s.key=some bytes := by
    rw [storedValue_eq ht,content_storeValue flag hf]
  have hkey : ((storeFlag flag).apply ((storeValue bytes).apply s)).key=s.key := rfl
  unfold announce
  rw [notices_written hl hs hf,hkey,hvalue,hg]
  rfl

/-- Setting a value calls the callbacks for the change it makes. -/
theorem set_announced (hq : Passive env.callbacks) (hl : w.isLoaded=true) (hok : RecordOk s)
    (hs : w.getByKey s.key=some s) :
    (prvUserSettingsSet env env.callbacks w s data len).1.trace=
      w.trace++announced w (prvUserSettingsSet env env.callbacks w s data len).1 := by
  have honly : OnlyAt s.key w (prvUserSettingsSet env env.callbacks w s data len).1 :=
    onlyAt_set hq hs
  by_cases hw : Writes s data len
  · have hrec := set_record env hq hs hw
    rw [set_trace hq hs hw]
    congr 1
    unfold valueRecord at hrec
    by_cases hn : len=0
    · rw [if_pos hn] at hrec ⊢
      rw [announced_nil honly hs hrec rfl]
    · have hf : (bytesAt data len).length ≤ s.maxSize := by
        rw [length_bytesAt]
        exact hw.fits
      have heffects : EffectSeq env anyValue w
          (prvUserSettingsSet env env.callbacks w s data len).1 :=
        userSettingsSet_effects callbacks_within_any hs (fun _ _ => trivial)
      rw [if_neg hn] at hrec ⊢
      have hdiff : storedValue (prvUserSettingsSet env env.callbacks w s data len).1 s.key≠
          storedValue w s.key := by
        rw [storedValue_eq hrec,storedValue_eq hs,content_storeValue _ hf]
        exact (content_differs hok hw.differs).symm
      rw [announced_of_onlyAt honly hrec,if_neg hdiff]
      exact notices_eq hl hs hf heffects.sameSetup.globalOnChangeCb hrec
  · rw [userSettingsSet_keeps hw]
    dsimp only
    rw [announced_nil (OnlyAt.refl s.key w) hs hs rfl,List.append_nil]

/-- Every call on one setting calls the callbacks for the change it makes. -/
theorem visit_announced (hq : Passive env.callbacks) (hl : w.isLoaded=true) (hok : RecordOk s)
    (hs : w.getByKey s.key=some s) (call : SettingCall) :
    (call.visit env w s).trace=w.trace++announced w (call.visit env w s) := by
  have honly : OnlyAt s.key w (call.visit env w s) := visit_onlyAt hq _ hs
  have hquiet : ∀ {t},(call.visit env w s).getByKey s.key=some t →
      content t .value=content s .value → (call.visit env w s).trace=w.trace →
      (call.visit env w s).trace=w.trace++announced w (call.visit env w s) := by
    intro t ht hc htrace
    rw [announced_nil honly hs ht hc,List.append_nil,htrace]
  cases call with
  | set data len => exact set_announced hq hl hok hs
  | setDefault data len =>
    by_cases hw : WritesDefault env s data len
    · refine hquiet (setDefault_record env env.callbacks hs hw) ?_ (setDefault_trace hs)
      unfold defaultRecord
      split <;> rfl
    · have hsame : SettingCall.visit env (.setDefault data len) w s=w :=
        congrArg Prod.fst (userSettingsSetDefault_keeps hw)
      exact hquiet (t:=s) (by rw [hsame]; exact hs) rfl (by rw [hsame])
  | restoreDefault =>
    change (prvSettingsRestore env env.callbacks w s).trace=
      w.trace++announced w (prvSettingsRestore env env.callbacks w s)
    unfold prvSettingsRestore
    split
    · exact set_announced hq hl hok hs
    · rw [announced_nil (OnlyAt.refl s.key w) hs hs rfl,List.append_nil]
  | setChanged => exact hquiet (flag_record hs true) rfl (flag_trace hs true)
  | clearChanged => exact hquiet (flag_record hs false) rfl (flag_trace hs false)

/-- A loaded list whose records have their shape. -/
structure Ready (w : World) : Prop where
  /-- The settings are loaded. -/
  isLoaded : w.isLoaded=true
  /-- All records have their shape. -/
  records : AllRecords RecordOk w

/-- A call keeps the list loaded and in shape. -/
theorem ready_step {move : Move} (hcall : IsCall move) (hw : Ready w)
    (h : moveStep env setup w move=some next) : Ready next := by
  cases move with
  | call target call =>
    have heff := call_effects h
    exact ⟨heff.sameSetup.isLoaded.trans hw.isLoaded,heff.invariant effect_recordOk hw.records⟩
  | load | reboot => exact hcall.elim

/-- Every move that is a call calls the callbacks for the change it makes. -/
theorem move_announced (hq : Passive env.callbacks) {move : Move} (hcall : IsCall move)
    (hw : Ready w) (h : moveStep env setup w move=some next) :
    next.trace=w.trace++announcedBy env setup w move := by
  unfold announcedBy
  rw [h]
  dsimp only
  cases move with
  | call target call =>
    obtain ⟨hl,s,hs,rfl⟩ := moveStep_call.mp h
    have hfound := getByKey_of_find hs
    exact visit_announced hq hl (hw.records s (getByKey_some hfound).1) hfound call
  | load | reboot => exact hcall.elim

/-- What the observer of one setting holds after one more event. -/
def observeAt (key : CString) (copy : Option (List UInt8)) (event : Event) :
    Option (List UInt8) := if event.key=key then event.shown else copy

/-- The copy of one setting among all copies. -/
theorem observe_at (key : CString) (events : List Event)
    (copy : CString → Option (List UInt8)) :
    events.foldl observe copy key=events.foldl (observeAt key) (copy key) := by
  induction events generalizing copy with
  | nil => rfl
  | cons event rest ih =>
    rw [List.foldl_cons,List.foldl_cons,ih]
    congr 1
    unfold observe observeAt
    by_cases hk : event.key=key
    · rw [hk,Function.update_self,if_pos rfl]
    · rw [Function.update_of_ne (Ne.symm hk),if_neg hk]

/-- A callback is called for changes of the record. -/
def Watched (w : World) (s : UserSetting) : Prop :=
  w.globalOnChangeCb.isSome=true ∨ s.onChangeCb.isSome=true

/-- Announcing another setting does not touch the copy. -/
theorem announce_other {key : CString} (hk : t.key≠key) (copy : Option (List UInt8)) :
    (announce next t).foldl (observeAt key) copy=copy := by
  unfold announce observeAt
  split <;> split <;> simp [hk]

/-- Announcing a watched setting brings its copy up to date. -/
theorem announce_self (ht : Watched next t) (copy : Option (List UInt8)) :
    (announce next t).foldl (observeAt t.key) copy=storedValue next t.key := by
  unfold announce observeAt
  rcases ht with hg|ho
  · rw [if_pos hg]
    split <;> simp
  · rw [if_pos ho]
    split <;> simp

/-- The setting is registered with a callback for it. -/
def WatchedAt (key : CString) (w : World) : Prop := ∃ t,w.getByKey key=some t ∧ Watched w t

/-- A setting is watched as long as the callbacks stay registered. -/
theorem watchedAt_sameSetup {key : CString} (h : SameSetup w next) (hw : WatchedAt key w) :
    WatchedAt key next := by
  obtain ⟨t,ht,hwatch⟩ := hw
  obtain ⟨u,hu,hr⟩ := getByKey_of_registrations h.regs ht
  have hcb : u.onChangeCb=t.onChangeCb := congrArg Registration.onChangeCb hr
  refine ⟨u,hu,?_⟩
  unfold Watched at hwatch ⊢
  rw [h.globalOnChangeCb,hcb]
  exact hwatch

/-- A call keeps all that was registered. -/
theorem sameSetup_step {move : Move} (hcall : IsCall move)
    (h : moveStep env setup w move=some next) : SameSetup w next := by
  cases move with
  | call target call => exact (call_effects h).sameSetup
  | load | reboot => exact hcall.elim

/-- The observer of a watched setting keeps its value through every call. -/
theorem move_observed (hq : Passive env.callbacks) {key : CString} {move : Move}
    (hcall : IsCall move) (hw : WatchedAt key w) (h : moveStep env setup w move=some next) :
    (announcedBy env setup w move).foldl (observeAt key) (storedValue w key)=
      storedValue next key := by
  unfold announcedBy
  rw [h]
  dsimp only
  cases move with
  | call target call =>
    have heff := call_effects h
    obtain ⟨_,s,hs,rfl⟩ := moveStep_call.mp h
    have hfound := getByKey_of_find hs
    have honly : OnlyAt s.key w (call.visit env w s) := visit_onlyAt hq _ hfound
    obtain ⟨t,ht,_⟩ := getByKey_of_registrations heff.sameSetup.regs hfound
    have htkey : t.key=s.key := key_of_getByKey ht
    rw [announced_of_onlyAt honly ht]
    by_cases hk : s.key=key
    · subst hk
      split
      · rename_i hsame
        exact hsame.symm
      · obtain ⟨u,hu,hwatch⟩ := watchedAt_sameSetup heff.sameSetup hw
        cases ht.symm.trans hu
        rw [←htkey]
        exact announce_self hwatch _
    · have hcell : storedValue (call.visit env w s) key=storedValue w key :=
        (honly.cells (.value,key) (Ne.symm hk)).1
      rw [hcell]
      split
      · rfl
      · exact announce_other (fun he => hk (htkey.symm.trans he)) _
  | load | reboot => exact hcall.elim

/-- For every history of the application that ends loaded and every run of
calls, imports, commands of the binary protocol and of the shell from there,
whatever data is passed, whatever validators say and whichever storage calls
fail: the run is a run of calls on single settings, and after any number of
these the callbacks called so far are, in this order and with nothing between
them, those for the changes of stored values, each seeing the new value. An
observer who reads a watched setting again at each call has its value. -/
theorem notifications_exact (env : Env) (hq : ∀ n,env.react n=[]) (first : Env)
    (setup : Setup) (nvs : Entries) (life : List LifecycleOp) (start final : World)
    (actions : List Action)
    (hstart : run (lifecycleStep first) (World.unstarted nvs) life=some start)
    (hl : start.isLoaded=true) (hactions : ∀ action∈actions,OnlyCalls action)
    (hrun : run (actionStep env setup) start actions=some final) :
    run (moveStep env setup) start (allMoves env setup start actions)=some final ∧
      ∀ calls middle,calls<+:allMoves env setup start actions →
        run (moveStep env setup) start calls=some middle →
        middle.trace=start.trace++
          outputs (moveStep env setup) (announcedBy env setup) start calls ∧
        ∀ s∈middle.list.items,Watched middle s →
          (outputs (moveStep env setup) (announcedBy env setup) start calls).foldl observe
            (storedValue start) s.key=storedValue middle s.key := by
  have hpassive := passive_callbacks hq
  have hcalls : ∀ move∈allMoves env setup start actions,IsCall move :=
    allMoves_calls hactions start
  refine ⟨run_allMoves hrun,fun calls middle hpre hmiddle => ?_⟩
  have hsome : ∀ move∈calls,IsCall move := fun move hm => hcalls move (hpre.subset hm)
  refine ⟨?_,fun s hs hwatch => ?_⟩
  · exact log_outputs (L:=IsCall) (I:=Ready) (fun _ _ _ => ready_step)
      (fun _ _ _ => move_announced hpassive) hsome ⟨hl,recordOk_run hstart⟩ hmiddle
  · have hsetup : SameSetup start middle := by
      refine run_invariant (C:=fun _ move => IsCall move ∧ True) (I:=SameSetup start) ?_
        (SameSetup.refl start) (meets_and hsome (meets_of_forall (fun _ _ => trivial) _ _)) hmiddle
      exact fun _ _ _ hu hcall hstep => hu.trans (sameSetup_step hcall.1 hstep)
    have hback : SameSetup middle start :=
      ⟨hsetup.regs.symm,hsetup.globalOnChangeCb.symm,hsetup.isInited.symm,hsetup.isLoaded.symm⟩
    have hfirst : WatchedAt s.key start :=
      watchedAt_sameSetup hback ⟨s,getByKey_of_mem hs,hwatch⟩
    rw [observe_at]
    exact foldl_outputs (L:=IsCall) (I:=WatchedAt s.key)
      (fun w => storedValue w s.key) (observeAt s.key)
      (fun _ _ _ hcall hw hstep => watchedAt_sameSetup (sameSetup_step hcall hstep) hw)
      (fun _ _ _ hcall hw hstep => move_observed hpassive hcall hw hstep) hsome hfirst hmiddle

/-- A setting with its own callback is set although storing fails, and then to
the same value and restored without a default: its callback is called once. -/
theorem notifications_on_device :
    let setup : Setup := device .u8 0 (some 0) none
    let env : Env := {calm with saveResult := fun _ => 1}
    let actions : List Action := [.device (.store (.set (.key keyA) (memOf [5]) 1)),
      .device (.store (.set (.key keyA) (memOf [5]) 1)),.shell (fun _ => 0) (.restoreOne keyA)]
    ∃ start final,run (lifecycleStep calm) (World.unstarted ∅) [.init 0,.add 1 keyA .u8,
        .setOnChangeCb keyA (some 0),.load (loadingOf [])]=some start ∧
      run (actionStep env setup) start actions=some final ∧
      storedValue start keyA=none ∧ storedValue final keyA=some [5] ∧
      final.trace=start.trace++
        outputs (moveStep env setup) (announcedBy env setup) start
          (allMoves env setup start actions) ∧
      outputs (moveStep env setup) (announcedBy env setup) start
        (allMoves env setup start actions)=[⟨.own,1,keyA,some [5]⟩] := by
  intro setup env actions
  have hactions : ∀ action∈actions,OnlyCalls action := by
    intro action hm
    rcases List.mem_cons.mp hm with rfl|hlater
    · trivial
    · rcases List.mem_pair.mp hlater with rfl|rfl <;> trivial
  refine ⟨_,_,rfl,rfl,rfl,rfl,?_,by decide +kernel⟩
  obtain ⟨hrun,hall⟩ := notifications_exact env (fun _ => rfl) calm setup ∅ [.init 0,
    .add 1 keyA .u8,.setOnChangeCb keyA (some 0),.load (loadingOf [])] _ _ actions rfl rfl
    hactions rfl
  exact (hall _ _ (List.prefix_refl _) hrun).1

end UserSettings.Notices
