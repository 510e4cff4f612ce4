import UserSettings.Durability
import UserSettings.Nesting

/-!
# Callbacks that set settings themselves

A callback runs between the write of its value to RAM and the attempt to
store it, so calls nest. While a call is open, RAM and storage differ at its
setting. The values of all settings that are not open agree, and the open ones
keep their value, as long as no call writes to an open setting, none writes no
bytes over a value, and each stores the bytes that it wrote to RAM.
-/

namespace UserSettings.Nested

open Bytes Settings Storage Store Effects Setters Reactions Load Records Cells Outcomes
open Operations Transition Device Moves Durability Nesting

/-- A set call writes at least one byte, to a setting that is not open, and
stores the bytes that it wrote to RAM. -/
def Apart : CallCondition := fun opened cb w s p len =>
  s.key∉opened ∧ len≠0 ∧ Steady opened cb w s p len

/-- The values of all settings that are not open agree in RAM and storage. -/
def SyncedBut (opened : List CString) (w : World) : Prop :=
  ∀ key,key∉opened → ram w (.value,key)=stored w (.value,key)

/-- What happens while some settings are open: the agreement of the others is
kept, and so are the values of the open ones. -/
structure Keeps (env : Env) (opened : List CString) (w next : World) : Prop where
  /-- Nothing happens but effects. -/
  effects : EffectSeq env anyValue w next
  /-- Agreement is kept. -/
  synced : SyncedBut opened w → SyncedBut opened next
  /-- Open settings keep their value. -/
  held : ∀ key∈opened,ram next (.value,key)=ram w (.value,key)

variable {env : Env} {w next : World} {opened : List CString}

/-- Nothing keeps everything. -/
theorem Keeps.refl (env : Env) (opened : List CString) (w : World) : Keeps env opened w w :=
  ⟨.refl,fun h => h,fun _ _ => rfl⟩

/-- What two parts keep both keep. -/
theorem Keeps.trans {middle : World} (h : Keeps env opened w middle)
    (k : Keeps env opened middle next) : Keeps env opened w next :=
  ⟨h.effects.trans k.effects,fun hw => k.synced (h.synced hw),
    fun key hk => (k.held key hk).trans (h.held key hk)⟩

variable {cb : Callbacks} {s : UserSetting} {data : Mem} {p : Pointer} {len : ℕ}

/-- A setting whose value was written only to RAM is open. -/
theorem SyncedBut.written {bytes : List UInt8} (h : SyncedBut opened w)
    (hs : w.getByKey s.key=some s) (hf : bytes.length ≤ s.maxSize) :
    SyncedBut (s.key::opened) (w.modify s.key (storeValue bytes)) := by
  have hstored : stored (w.modify s.key (storeValue bytes))=stored w :=
    stored_of_registrations (registrations_modify (fun _ => rfl) _ _) rfl
  intro key hk
  simp only [List.mem_cons,not_or] at hk
  rw [ram_storeValue hs hf,hstored,Function.update_of_ne (fun he => hk.1 (Prod.mk.inj he).2)]
  exact h key hk.2

/-- The values after a call that writes: RAM as the callbacks left it, storage
with the new value. -/
theorem set_value_cells (hsave : ∀ n,env.saveResult n=0) (hs : w.getByKey s.key=some s)
    (hcb : Within env anyValue cb) (hw : Writes s (p w) len) (hn : len≠0)
    (hsteady : Steady opened cb w s p len) (key : CString) :
    ram (prvUserSettingsSetFrom env cb w s p len).1 (.value,key)=
        ram (valueWritten cb w s (p w) len) (.value,key) ∧
      stored (prvUserSettingsSetFrom env cb w s p len).1 (.value,key)=
        Function.update (stored (valueWritten cb w s (p w) len)) (.value,s.key)
          (some (bytesAt (p w) len)) (.value,key) := by
  have hv := valueWritten_effects hcb hs hw.fits hw.valid (fun _ => trivial)
  obtain ⟨t,ht,hr⟩ := getByKey_of_registrations hv.sameSetup.regs hs
  have hstored : stored (valueStoredFrom env cb w s p len)=
      Function.update (stored (valueWritten cb w s (p w) len)) (.value,s.key)
        (some (bytesAt (p w) len)) := by
    unfold valueStoredFrom
    dsimp only
    rw [saveOne_congr hsteady,stored_saveOne env ht,if_pos (hsave _),
      maxSize_of_registration hr,decode_value _ _ hw.fits (by decide),if_neg hn]
  have hram : ram (valueStoredFrom env cb w s p len)=
      ram (valueWritten cb w s (p w) len) := ram_saveOne ..
  have hrec : (valueStoredFrom env cb w s p len).getByKey s.key=some t :=
    (saveOne_getByKey ..).trans ht
  have hrect : (valueStoredFrom env cb w s p len).getByKey t.key=some t := by
    rw [key_of_registration hr]
    exact hrec
  -- the flag that is set last is a cell of another subtree
  have hne := cell_ne .value .changed (by decide) key t.key
  obtain ⟨hfram,hfstored⟩ := flag_cells hrect true
  rw [userSettingsSetFrom_writes hs hw]
  dsimp only
  rw [if_neg (not_not.mpr (hsave _)),deref_eq hrec]
  dsimp only
  rw [hfram,hfstored,Function.update_of_ne hne,hram,←hstored]
  refine ⟨rfl,?_⟩
  split
  · rfl
  · rw [Function.update_of_ne hne]

/-- One call: what its callbacks keep with the setting open, the call keeps. -/
theorem nests_keeps (hsave : ∀ n,env.saveResult n=0) : Nests env Apart (Keeps env) where
  refl := Keeps.refl env
  trans := Keeps.trans
  notify := fun _ _ kind s => ⟨.single (.notify kind s),fun hw => hw,fun _ _ => rfl⟩
  set := by
    intro opened cb w s p len hs hcb hw hapart hnested
    obtain ⟨hopen,hn,hsteady⟩ := hapart
    have hfits : (bytesAt (p w) len).length ≤ s.maxSize := by
      rw [length_bytesAt]
      exact hw.fits
    have hkeep := hnested hn
    have hcells := set_value_cells hsave hs hcb hw hn hsteady
    have hram := ram_storeValue hs hfits
    refine ⟨userSettingsSetFrom_effects hcb hs (fun _ _ => trivial)
      (fun _ => .inr fun _ => trivial),fun hsync key hk => ?_,fun key hk => ?_⟩
    · rw [(hcells key).1,(hcells key).2]
      by_cases hks : key=s.key
      · subst hks
        rw [Function.update_self,hkeep.held _ List.mem_cons_self,hram,Function.update_self]
      · rw [Function.update_of_ne (fun he => hks (Prod.mk.inj he).2)]
        refine hkeep.synced (hsync.written hs hfits) key ?_
        simp only [List.mem_cons,not_or]
        exact ⟨hks,hk⟩
    · have hks : key≠s.key := fun he => hopen (he ▸ hk)
      rw [(hcells key).1,hkeep.held key (List.mem_cons_of_mem _ hk),hram,
        Function.update_of_ne (fun he => hks (Prod.mk.inj he).2)]

/-- Changes of default values and flags keep the values of all settings. -/
theorem keeps_of_value_cells (he : EffectSeq env anyValue w next)
    (h : ∀ key,ram next (.value,key)=ram w (.value,key) ∧
      stored next (.value,key)=stored w (.value,key)) : Keeps env opened w next := by
  refine ⟨he,fun hw key hk => ?_,fun key _ => (h key).1⟩
  rw [(h key).1,(h key).2]
  exact hw key hk

/-- Setting a flag keeps the values. -/
theorem flag_keeps (hs : w.getByKey s.key=some s) (flag : Bool) :
    Keeps env opened w (prvSetChangedRecentlyFlag env env.callbacks w s flag).1 := by
  refine keeps_of_value_cells (setChangedRecentlyFlag_effects hs flag) ?_
  intro key
  have hne := cell_ne .value .changed (by decide) key s.key
  obtain ⟨hram,hstored⟩ := flag_cells hs flag
  rw [hram,hstored,Function.update_of_ne hne]
  refine ⟨rfl,?_⟩
  split
  · rfl
  · rw [Function.update_of_ne hne]

/-- Setting a default value keeps the values. -/
theorem setDefault_keeps (hs : w.getByKey s.key=some s) :
    Keeps env opened w (prvUserSettingsSetDefault env env.callbacks w s data len).1 := by
  refine keeps_of_value_cells (userSettingsSetDefault_effects hs) ?_
  intro key
  have hne := cell_ne .value .default (by decide) key s.key
  by_cases hw : WritesDefault env s data len
  · by_cases hn : len=0
    · subst hn
      rw [userSettingsSetDefault_writes hs hw]
      unfold defaultWritten
      rw [if_pos rfl]
      dsimp only
      rw [ram_saveOne,stored_saveOne env hs]
      refine ⟨rfl,?_⟩
      split
      · rw [Function.update_of_ne hne]
      · rfl
    · obtain ⟨hram,hstored⟩ := setDefault_cells hs hw hn
      rw [hram,hstored,Function.update_of_ne hne]
      refine ⟨rfl,?_⟩
      split
      · rw [Function.update_of_ne hne]
      · rfl
  · rw [userSettingsSetDefault_keeps hw]
    exact ⟨rfl,rfl⟩

/-- A move whose set calls stay apart keeps the agreement of all values. -/
theorem move_synced (hsave : ∀ n,env.saveResult n=0) {setup : Setup} :
    Preserves (moveStep env setup) (MoveMeets Apart env) (SyncedBut []) := by
  intro w move next hw hm hs
  cases move with
  | call target call =>
    exact (moveCall_rel (nests_keeps hsave) (fun _ _ _ hs => setDefault_keeps hs)
      (fun flag _ hs => flag_keeps hs flag) hm hs).synced hw
  | load => exact hm.elim
  | reboot => exact fun key _ =>
      congrFun (booted_ram (reboot_ok (toOption_eq_some.mp hs))) (.value,key)

/-- The persistent entry of every set value is this value, and a start reads
no value where none is set. -/
def ValuesKept (w : World) : Prop :=
  ∀ s,w.getByKey s.key=some s →
    (s.isSet=true → w.nvs.lookup (keyWithPrefix .value s.key)=some s.value) ∧
      (s.isSet=false → stored w (.value,s.key)=none)

/-- Agreeing values are kept. -/
theorem valuesKept_of_synced (h : SyncedBut [] w) : ValuesKept w := by
  intro s hs
  have hsync := h s.key (List.not_mem_nil)
  rw [ram_eq hs] at hsync
  dsimp only [content] at hsync
  constructor
  · intro hi
    rw [if_pos hi,stored_eq hs] at hsync
    cases he : w.nvs.lookup (keyWithPrefix .value s.key) with
    | none =>
      rw [he] at hsync
      cases hsync
    | some entry =>
      rw [he] at hsync
      dsimp only [decode] at hsync
      split at hsync
      · cases hsync
      · exact hsync.symm
  · intro hi
    rw [←hsync,hi]
    rfl

/-- The set calls of an operation stay apart. -/
def ApartOp (env : Env) (setup : Setup) (w : World) (op : StoreOp) : Prop :=
  ActionMeets Apart env setup w (.device (.store op))

/-- Along every run after a load, of operations and of set calls with pointers
to memory that may change, with storage that does not fail and whatever the
callbacks set: if each call that writes, at any depth, writes at least one byte
to a setting that no enclosing call is setting, and stores the bytes that it
wrote to RAM, then after every call the persistent entry of every value is the
value in RAM. -/
theorem nested_values_kept (env : Env) (setup : Setup) (nvs : Entries) (start : World)
    (hsave : ∀ n,env.saveResult n=0) (hboot : boot env setup nvs=.ok start)
    (steps : List (Pointed StoreOp))
    (hapart : Meets (pointedStep env (step env)) (PointedMeets Apart env (ApartOp env setup))
      start steps) :
    Always (pointedStep env (step env)) ValuesKept start steps := by
  have hstart : SyncedBut [] start :=
    fun key _ => congrFun (booted_ram (reboot_ok hboot)) (.value,key)
  have hpres : Preserves (pointedStep env (step env)) (PointedMeets Apart env (ApartOp env setup))
      (SyncedBut []) := by
    refine pointed_preserves ?_ ?_
    · intro w op next hw hm hs
      exact action_preserves (move_synced hsave) w (.device (.store op)) next hw hm hs
    · intro w target p len next hw hm hs
      exact (setFrom_rel (nests_keeps hsave) hm hs).synced hw
  exact always_of_invariant hpres (fun _ => valuesKept_of_synced) hstart hapart

/-- A callback of a setting that sets another setting, once. -/
def setsOther : Env :=
  ⟨fun _ => 0,true,true,fun n => if n=1 then [.set (.id 2) (fun _ => memOf [7]) 1 [] []] else []⟩

/-- Two byte settings, the first with a callback. -/
def twoSettings : Setup :=
  ⟨[⟨1,keyA,.u8,0,some 0,none⟩,⟨2,keyB,.u8,0,none,none⟩],none⟩

/-- Setting the first setting stays apart although its callback sets the second. -/
theorem setsOther_apart (setup : Setup) (w : World) :
    ApartOp setsOther setup w (.set (.id 1) (memOf [5]) 1) := by
  refine ⟨fun s hs _ => ?_,fun _ _ => trivial⟩
  have hid := (getById_some hs).2
  have hother : ∀ {u : World} {t : UserSetting},registrations u=registrations w →
      u.find (.id 2)=some t → t.key≠s.key := by
    intro u t hu ht hk
    obtain ⟨now,hnow,hr⟩ := getByKey_of_registrations hu (getByKey_of_find hs)
    have htk := getByKey_of_find ht
    rw [hk,hnow] at htk
    have h1 : t.id=s.id := (Option.some.inj htk) ▸ congrArg Registration.id hr
    rw [(getById_some ht).2,hid] at h1
    cases h1
  have hreaction : ∀ u : World,registrations u=registrations w →
      CallbacksMeet Apart setsOther [s.key] u := by
    intro u hu
    unfold CallbacksMeet setsOther
    dsimp only
    split
    · refine ⟨fun t ht _ => ⟨⟨?_,by decide,rfl⟩,fun _ => ⟨fun _ => trivial,fun _ => trivial⟩⟩,
        trivial⟩
      rw [List.mem_singleton]
      exact hother hu ht
    · trivial
  have hwritten := registrations_modify (u:=storeValue (bytesAt (memOf [5]) 1))
    (fun _ => rfl) w s.key
  refine ⟨⟨List.not_mem_nil,by decide,rfl⟩,
    fun _ => ⟨fun _ => hreaction _ hwritten,fun _ => hreaction _ ?_⟩⟩
  exact (notifyGlobal_effects callbacks_within_any _ s).sameSetup.regs.trans hwritten

/-- A callback that sets another setting keeps all values. -/
theorem nested_values_kept_sets_other : ∃ start,boot setsOther twoSettings ∅=.ok start ∧
    Always (pointedStep setsOther (step setsOther)) ValuesKept start
      [.op (.set (.id 1) (memOf [5]) 1)] :=
  ⟨_,rfl,nested_values_kept setsOther twoSettings ∅ _ (fun _ => rfl) rfl _
    ⟨setsOther_apart _ _,fun _ _ => trivial⟩⟩

/-- A callback of the setting "a" that sets it to 100, once. -/
def setsItself : Env :=
  ⟨fun _ => 0,true,true,fun n =>
    if n=1 then [.set (.key keyA) (fun _ => memOf [100]) 1 [] []] else []⟩

/-- Setting 200 with a callback that sets the same setting to 100: RAM ends
with 100, storage with 200. -/
theorem nested_value_lost :
    ¬∀ (env : Env) (setup : Setup) (nvs : Entries) (start : World),
      (∀ n,env.saveResult n=0) → boot env setup nvs=.ok start →
      ∀ target data len next,userSettingsSet env start target data len=.ok (next,0) →
        ValuesKept next := by
  intro h
  let setup := device .u8 0 (some 0) none
  have hrun : (boot setsItself setup ∅).toOption.bind (fun start =>
      (userSettingsSet setsItself start (.key keyA) (memOf [200]) 1).toOption.bind fun r =>
        (r.1.getByKey keyA).map fun s =>
          (r.2,s.isSet,s.value,r.1.nvs.lookup (keyWithPrefix .value s.key)))=
      some (0,true,[100],some [200]) := by decide +kernel
  obtain ⟨start,hstart,hrun⟩ := Option.bind_eq_some_iff.mp hrun
  obtain ⟨r,hr,hrun⟩ := Option.bind_eq_some_iff.mp hrun
  obtain ⟨s,hs,hcheck⟩ := Option.map_eq_some_iff.mp hrun
  obtain ⟨next,rc⟩ := r
  simp only [Prod.mk.injEq] at hcheck
  obtain ⟨hrc,hi,hv,he⟩ := hcheck
  subst hrc
  rw [←key_of_getByKey hs] at hs
  have hkept := (h setsItself setup ∅ start (fun _ => rfl) (toOption_eq_some.mp hstart) _ _ _
    next (toOption_eq_some.mp hr) s hs).1 hi
  rw [he,hv] at hkept
  cases hkept

end UserSettings.Nested
