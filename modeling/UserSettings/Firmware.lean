import UserSettings.Refresh

/-!
# Other firmware on the same storage

Firmware is exchanged while the entries stay. New firmware may register other
settings, or the same key with another size or type, and storage may fail at
any time. What a key had is there again as soon as firmware that knows it runs,
unless a call on this very key has written it.
-/

namespace UserSettings.Firmware

open Bytes Settings Storage Store Effects Load Records Cells Outcomes Operations Transition
open Device Moves Durability Refinement Refresh

/-- What happens to a device over its life. -/
inductive LifeEvent where
  /-- Anything that the installed firmware does. -/
  | action (action : Action)
  /-- Other firmware is installed and started. -/
  | flash (setup : Setup)

/-- A step in the life of a device: the installed firmware and its state. -/
def lifeStep (env : Env) (state : Setup×World) : LifeEvent → Option (Setup×World)
  | .action action => (actionStep env state.1 state.2 action).map fun next => (state.1,next)
  | .flash setup => (reboot env setup state.2).toOption.map fun next => (setup,next)

/-- A call names the setting with a key, by the key or by its identifier. -/
def Names (regs : List Registration) (key : CString) : Target → Prop
  | .key other => other=key
  | .id id => ∃ r∈regs,r.id=id ∧ r.key=key

/-- No call of an event is on the setting with a key. Restoring or clearing all
settings is a call on each of those that the installed firmware has. -/
def LeavesAlone (env : Env) (key : CString) (state : Setup×World) : LifeEvent → Prop
  | .action action => ∀ target call,.call target call∈action.moves env state.2 →
    ¬Names (registered state.1) key target
  | .flash _ => True

variable {env : Env} {setup : Setup} {w next : World} {key : CString}
variable {entry : Subtree → Option (List UInt8)} {agreed : Prop}

/-- The entries of a key are given ones, and firmware that knows the key shows
what it makes of them, if it did so at the beginning. -/
structure Keeps (agreed : Prop) (key : CString) (entry : Subtree → Option (List UInt8))
    (setup : Setup) (w : World) : Prop where
  /-- The device serves. -/
  serving : Serving setup w
  /-- The entries are the given ones. -/
  entries : ∀ subtree,w.nvs.lookup (keyWithPrefix subtree key)=entry subtree
  /-- RAM shows them. -/
  shown : agreed → ∀ s,w.getByKey key=some s → ∀ subtree,
    ram w (subtree,key)=decode subtree s.maxSize (entry subtree)

/-- Firmware that starts over the entries shows them. -/
theorem keeps_of_booted (h : Booted setup w next)
    (hentries : ∀ subtree,w.nvs.lookup (keyWithPrefix subtree key)=entry subtree) :
    Keeps agreed key entry setup next := by
  have hnext : ∀ subtree,next.nvs.lookup (keyWithPrefix subtree key)=entry subtree := by
    intro subtree
    rw [h.nvs]
    exact hentries subtree
  refine ⟨serving_of_booted h,hnext,fun _ s hs subtree => ?_⟩
  rw [booted_ram h,stored_eq hs,hnext]

/-- A call on another setting is found under another key. -/
theorem key_ne_of_find {target : Target} {s : UserSetting} (hs : w.find target=some s)
    (h : ¬Names (registrations w) key target) : s.key≠key := by
  rintro rfl
  cases target with
  | key other => exact h (getByKey_some hs).2.symm
  | id id =>
    obtain ⟨hmem,hid⟩ := getById_some hs
    exact h ⟨registration s,List.mem_map_of_mem hmem,hid,rfl⟩

section Moves

variable (hq : Passive env.callbacks)

include hq

/-- A move that is no call on the key keeps what it shows. -/
theorem keeps_move (hw : Keeps agreed key entry setup w) {move : Move}
    (hmove : ∀ target call,move=.call target call → ¬Names (registered setup) key target)
    (h : moveStep env setup w move=some next) : Keeps agreed key entry setup next := by
  have hserving := serving_move hq hw.serving h
  cases move with
  | call target call =>
    obtain ⟨_,s,hs,rfl⟩ := moveStep_call.mp h
    have hother : ¬Names (registrations w) key target :=
      hw.serving.running.regs ▸ hmove target call rfl
    have hne := key_ne_of_find hs hother
    have honly : OnlyAt s.key w (call.visit env w s) := visit_onlyAt hq _ (getByKey_of_find hs)
    have hsame := OnlyAt.sameAt honly hne.symm
    refine ⟨hserving,fun subtree => (hsame.entry subtree).trans (hw.entries subtree),?_⟩
    intro hagreed t ht subtree
    rw [(hsame.cells subtree).1]
    exact hw.shown hagreed t (hsame.record.symm.trans ht) subtree
  | reboot => exact keeps_of_booted (reboot_ok (toOption_eq_some.mp h)) hw.entries
  | load =>
    obtain ⟨list,hload,hitems⟩ :=
      refresh_load hq hw.serving.isInited hw.serving.running.isLoaded
    obtain ⟨⟨loaded,ret⟩,hrun,rfl⟩ := Option.map_eq_some_iff.mp h
    cases hload.symm.trans (toOption_eq_some.mp hrun)
    refine ⟨hserving,hw.entries,fun hagreed t ht subtree => ?_⟩
    have hregs : registrations w=
        registrations { w with list := list, trace := w.trace++loadNotices w } :=
      (registrations_refreshed hitems).symm
    obtain ⟨s,hs,hreg⟩ := getByKey_of_registrations hregs ht
    have hsize : s.maxSize=t.maxSize := congrArg Registration.size hreg
    have hshown : ram { w with list := list, trace := w.trace++loadNotices w } (subtree,key)=_ :=
      ram_refreshed hitems hs subtree
    rw [hshown,hw.shown hagreed s hs,hw.entries,refreshed_decode,hsize]

/-- So does a run of such moves. -/
theorem keeps_moves {moves : List Move} (hw : Keeps agreed key entry setup w)
    (hmoves : ∀ target call,.call target call∈moves → ¬Names (registered setup) key target)
    (h : run (moveStep env setup) w moves=some next) : Keeps agreed key entry setup next := by
  induction moves generalizing w with
  | nil =>
    cases h
    exact hw
  | cons move rest ih =>
    obtain ⟨middle,hone,hrest⟩ := run_cons.mp h
    have hmiddle := keeps_move hq hw (fun target call he =>
      hmoves target call (he ▸ List.mem_cons_self)) hone
    exact ih hmiddle (fun target call hmem =>
      hmoves target call (List.mem_cons_of_mem _ hmem)) hrest

/-- A step in the life of a device that leaves a key alone. -/
theorem keeps_life {state after : Setup×World} {event : LifeEvent}
    (hw : Keeps agreed key entry state.1 state.2) (hc : LeavesAlone env key state event)
    (h : lifeStep env state event=some after) : Keeps agreed key entry after.1 after.2 := by
  cases event with
  | action action =>
    obtain ⟨next,hstep,rfl⟩ := Option.map_eq_some_iff.mp h
    exact keeps_moves hq hw hc (run_moves hstep)
  | flash setup =>
    obtain ⟨next,hboot,rfl⟩ := Option.map_eq_some_iff.mp h
    exact keeps_of_booted (reboot_ok (toOption_eq_some.mp hboot)) hw.entries

end Moves

/-- For every device in every state it reaches, every key and every further
life (any actions, reboots and any number of firmware changes with any setups,
storage failing at any time, callbacks that only look) in which no call is on
this key: its three entries stay as they are. If RAM and storage agreed on it before,
or it was not known, then firmware that knows the key shows at the end exactly
what fits of these entries; with the size it had before, these are the cells it
had before. -/
theorem firmware_change_keeps (env : Env) (hquiet : ∀ n,env.react n=[]) (setup : Setup)
    (nvs : Entries) (start w : World) (earlier : List Action)
    (hboot : boot env setup nvs=.ok start)
    (hrun : run (actionStep env setup) start earlier=some w) (key : CString)
    (events : List LifeEvent) (last : Setup) (v : World)
    (hlife : run (lifeStep env) (setup,w) events=some (last,v))
    (halone : Meets (lifeStep env) (LeavesAlone env key) (setup,w) events) :
    (∀ subtree,v.nvs.lookup (keyWithPrefix subtree key)=
      w.nvs.lookup (keyWithPrefix subtree key)) ∧
    ((∀ subtree,ram w (subtree,key)=stored w (subtree,key)) →
      ∀ t,v.getByKey key=some t → ∀ subtree,
        ram v (subtree,key)=
          decode subtree t.maxSize (w.nvs.lookup (keyWithPrefix subtree key)) ∧
        ∀ s,w.getByKey key=some s → t.maxSize=s.maxSize →
          ram v (subtree,key)=ram w (subtree,key)) := by
  have hq := passive_callbacks hquiet
  let entry : Subtree → Option (List UInt8) := fun subtree =>
    w.nvs.lookup (keyWithPrefix subtree key)
  let agreed : Prop := ∀ subtree,ram w (subtree,key)=stored w (subtree,key)
  have hserving : Serving setup w :=
    serving_actions hq (serving_of_booted (reboot_ok hboot)) hrun
  have hfirst : Keeps agreed key entry setup w :=
    ⟨hserving,fun _ => rfl,
      fun hagree s hs subtree => (hagree subtree).trans (stored_eq hs subtree)⟩
  have hend : Keeps agreed key entry last v :=
    run_invariant (I:=fun state : Setup×World => Keeps agreed key entry state.1 state.2)
      (fun _ _ _ hu hc hs => keeps_life hq hu hc hs) hfirst halone hlife
  refine ⟨hend.entries,fun hagree t ht subtree => ?_⟩
  have hshown : ram v (subtree,key)=
      decode subtree t.maxSize (w.nvs.lookup (keyWithPrefix subtree key)) :=
    hend.shown hagree t ht subtree
  refine ⟨hshown,fun s hs hsize => ?_⟩
  rw [hshown,hagree,stored_eq hs,hsize]

/-- Firmware that knows another setting only. -/
def otherDevice : Setup := ⟨[⟨2,⟨CString.ascii ['h'],by decide⟩,.u16,0,none,none⟩],none⟩

/-- Other firmware restores its own settings, then the first one comes back. -/
theorem firmware_change_keeps_value :
    ∃ start w last v t,boot calm (device .u8 0 none none) ∅=.ok start ∧
      run (actionStep calm (device .u8 0 none none)) start
        [.device (.store (.set (.key keyA) (memOf [7]) 1))]=some w ∧
      run (lifeStep calm) (device .u8 0 none none,w)
        [.flash otherDevice,.action (.device (.store .restoreDefaults)),
          .flash (device .u8 0 none none)]=some (last,v) ∧
      v.getByKey keyA=some t ∧ ram v (.value,keyA)=some [7] := by
  let set : Action := .device (.store (.set (.key keyA) (memOf [7]) 1))
  let restore : Action := .device (.store .restoreDefaults)
  have hdevice : ∃ start w s u v t,boot calm (device .u8 0 none none) ∅=.ok start ∧
      run (actionStep calm (device .u8 0 none none)) start [set]=some w ∧
      w.getByKey keyA=some s ∧ content s .value=some [7] ∧
      (∀ subtree,content s subtree=
        decode subtree s.maxSize (w.nvs.lookup (keyWithPrefix subtree keyA))) ∧
      lifeStep calm (device .u8 0 none none,w) (.flash otherDevice)=some (otherDevice,u) ∧
      restore.moves calm u=[.call (.key ⟨CString.ascii ['h'],by decide⟩) .restoreDefault] ∧
      run (lifeStep calm) (device .u8 0 none none,w)
        [.flash otherDevice,.action restore,.flash (device .u8 0 none none)]=
          some (device .u8 0 none none,v) ∧
      v.getByKey keyA=some t ∧ t.maxSize=s.maxSize :=
    ⟨_,_,_,_,_,_,rfl,rfl,rfl,rfl,fun subtree => by cases subtree <;> rfl,rfl,rfl,rfl,rfl,rfl⟩
  obtain ⟨start,w,s,u,v,t,hboot,hrun,hs,hvalue,hagree,hflash,hmoves,hlife,ht,hsize⟩ := hdevice
  have hcells : ∀ subtree,ram w (subtree,keyA)=stored w (subtree,keyA) := by
    intro subtree
    rw [ram_eq hs,stored_eq hs,hagree]
  have halone : Meets (lifeStep calm) (LeavesAlone calm keyA) (device .u8 0 none none,w)
      [.flash otherDevice,.action restore,.flash (device .u8 0 none none)] := by
    refine ⟨trivial,fun x hx => ?_⟩
    cases hflash.symm.trans hx
    refine ⟨fun target call hmem hnames => ?_,fun _ _ => ⟨trivial,fun _ _ => trivial⟩⟩
    rw [hmoves] at hmem
    cases List.mem_singleton.mp hmem
    have hne : (⟨CString.ascii ['h'],by decide⟩ : CString)≠keyA := by decide
    exact hne hnames
  obtain ⟨_,hshown⟩ := firmware_change_keeps calm (fun _ => rfl) (device .u8 0 none none) ∅ start w
    [set] hboot hrun keyA _ _ v hlife halone
  have hback := ((hshown hcells t ht .value).2 s hs hsize).trans ((ram_eq hs .value).trans hvalue)
  exact ⟨start,w,_,v,t,hboot,hrun,hlife,ht,hback⟩

end UserSettings.Firmware
