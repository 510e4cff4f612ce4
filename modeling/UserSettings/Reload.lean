import UserSettings.Outcomes

/-!
# Repeated loads and what leaves one cell of all settings alone

Value, default value and changed flag of a setting lie in separate cells, each
with a copy in RAM and one in storage. A step that is not about one of the
three leaves this cell of every setting alone in both copies. A repeated load
leaves a cell alone as well if its copies agree before.
-/

namespace UserSettings.Reload

open Bytes Settings Storage Store Effects Setters Reactions Load Records Cells Outcomes

/-- The setup, a reading of every record and one stored cell of every setting
are the same before and after. -/
structure Untouched {α : Type} (read : UserSetting → α) (subtree : Subtree) (w next : World) :
    Prop where
  /-- The setup is the same. -/
  setup : SameSetup w next
  /-- The records read the same. -/
  records : ∀ key,(next.getByKey key).map read=(w.getByKey key).map read
  /-- The cells in storage are the same. -/
  inStorage : ∀ key,stored next (subtree,key)=stored w (subtree,key)

/-- One cell of every setting is the same in RAM and in storage. -/
abbrev CellsUntouched (subtree : Subtree) : World → World → Prop :=
  Untouched (fun s => content s subtree) subtree

/-- Callbacks that leave a reading and a stored cell of every setting alone. -/
structure Sparing {α : Type} (read : UserSetting → α) (subtree : Subtree) (cb : Callbacks) :
    Prop where
  /-- The global callback. -/
  global : ∀ w,Untouched read subtree w (cb.global w)
  /-- The callback of the setting. -/
  own : ∀ w,Untouched read subtree w (cb.own w)

/-- A reading that neither values nor flags have a part in. -/
structure OfDefault {α : Type} (read : UserSetting → α) : Prop where
  /-- A new value reads the same. -/
  value : ∀ bytes s,read ((storeValue bytes).apply s)=read s
  /-- A new flag reads the same. -/
  flag : ∀ flag s,read ((storeFlag flag).apply s)=read s

variable {α : Type} {read : UserSetting → α} {env : Env} {cb : Callbacks}
  {subtree other : Subtree} {w middle next : World} {s : UserSetting} {key : CString} {data : Mem}
  {len : ℕ}

/-- Nothing touches nothing. -/
theorem Untouched.refl (read : UserSetting → α) (subtree : Subtree) (w : World) :
    Untouched read subtree w w := ⟨SameSetup.refl w,fun _ => rfl,fun _ => rfl⟩

/-- What two parts leave alone both leave alone. -/
theorem Untouched.trans (h : Untouched read subtree w middle)
    (k : Untouched read subtree middle next) : Untouched read subtree w next :=
  ⟨h.setup.trans k.setup,fun key => (k.records key).trans (h.records key),
    fun key => (k.inStorage key).trans (h.inStorage key)⟩

/-- Cells that read the same are the same in RAM. -/
theorem Untouched.inRam (h : CellsUntouched subtree w next) (key : CString) :
    ram next (subtree,key)=ram w (subtree,key) := by
  have hram : ∀ u : World,ram u (subtree,key)=
      ((u.getByKey key).map fun s => content s subtree).getD none := by
    intro u
    unfold ram
    cases u.getByKey key <;> rfl
  rw [hram,hram,h.records]

/-- A cell of the default subtree is such a reading. -/
theorem ofDefault_content : OfDefault (fun s => content s .default) :=
  ⟨fun _ _ => rfl,fun _ _ => rfl⟩

/-- Callbacks that do not modify settings spare everything. -/
theorem sparing_of_passive (hq : Passive cb) : Sparing read subtree cb := by
  constructor
  · intro w
    rw [hq.global]
    exact Untouched.refl read subtree w
  · intro w
    rw [hq.own]
    exact Untouched.refl read subtree w

/-- A change of a record that reads the same. -/
theorem untouched_modify {u : Update} (hu : Plain u)
    (hc : ∀ s,w.getByKey key=some s → read (u.apply s)=read s) :
    Untouched read subtree w (w.modify key u) := by
  refine ⟨sameSetup_modify hu w key,fun k => ?_,fun k => ?_⟩
  · by_cases hk : k=key
    · subst hk
      cases hs : w.getByKey k with
      | none =>
        have hsame : w.modify k u=w := modify_eq_self fun s hf => by
          rw [hs] at hf
          cases hf
        rw [hsame,hs]
      | some s => rw [modify_self u hs,Option.map_some,Option.map_some,hc s hs]
    · rw [modify_ne u hk]
  · exact congrFun (stored_of_registrations (registrations_modify hu w key) rfl) _

/-- Storing another cell. -/
theorem untouched_saveOne (env : Env) (w : World) (key : CString) (data : Mem) (len : ℕ)
    (h : other≠subtree) :
    Untouched read subtree w (settingsSaveOne env w (keyWithPrefix other key) data len).1 := by
  refine ⟨sameSetup_saveOne env w _ data len,fun k => ?_,fun k => ?_⟩
  · rw [saveOne_getByKey]
  · have hname : ¬(keyWithPrefix subtree k=keyWithPrefix other key ∧
        env.saveResult w.saves=0) := fun he => h (keyWithPrefix_inj.mp he.1).1.symm
    unfold stored
    rw [saveOne_getByKey,saveOne_lookup,if_neg hname]

/-- Notifying callbacks that spare the reading. -/
theorem untouched_notify (hcb : Sparing read subtree cb) (w : World) (s : UserSetting) :
    Untouched read subtree w (notifyOwn cb (notifyGlobal cb w s) s) := by
  have hrecord : ∀ (u : World) (kind : CallbackKind),
      Untouched read subtree u (u.notify kind s) :=
    fun _ _ => ⟨⟨rfl,rfl,rfl,rfl⟩,fun _ => rfl,fun _ => rfl⟩
  have hglobal : Untouched read subtree w (notifyGlobal cb w s) := by
    unfold notifyGlobal
    split
    · exact (hrecord w .global).trans (hcb.global _)
    · exact Untouched.refl read subtree w
  have hown : Untouched read subtree (notifyGlobal cb w s)
      (notifyOwn cb (notifyGlobal cb w s) s) := by
    unfold notifyOwn
    split
    · exact (hrecord _ .own).trans (hcb.own _)
    · exact Untouched.refl read subtree _
  exact hglobal.trans hown

/-- Setting a flag leaves what flags have no part in alone. -/
theorem untouched_flag (h : subtree≠.changed)
    (hread : ∀ flag s,read ((storeFlag flag).apply s)=read s) (hs : w.getByKey s.key=some s)
    (flag : Bool) : Untouched read subtree w (prvSetChangedRecentlyFlag env cb w s flag).1 := by
  rw [setChangedRecentlyFlag_eq hs]
  split
  · exact Untouched.refl read subtree w
  · exact (untouched_modify (fun _ => rfl) fun t _ => hread flag t).trans
      (untouched_saveOne env _ s.key _ 1 h.symm)

/-- Writing a value to RAM leaves all default values alone, with all that its
callbacks do. -/
theorem untouched_valueWritten (hread : OfDefault read) (hcb : Sparing read .default cb)
    (w : World) (s : UserSetting) (data : Mem) (len : ℕ) :
    Untouched read .default w (valueWritten cb w s data len) := by
  unfold valueWritten
  split
  · exact Untouched.refl read .default w
  · exact (untouched_modify (fun _ => rfl) (fun t _ => hread.value _ t)).trans
      (untouched_notify hcb _ s)

/-- Setting a value leaves all default values alone. -/
theorem untouched_set {p : Pointer} (hread : OfDefault read)
    (hcb : Sparing read .default cb) (hs : w.getByKey s.key=some s) :
    Untouched read .default w (prvUserSettingsSetFrom env cb w s p len).1 := by
  by_cases hw : Writes s (p w) len
  · have hwritten := untouched_valueWritten hread hcb w s (p w) len
    have hstored : Untouched read .default w (valueStoredFrom env cb w s p len) :=
      hwritten.trans (untouched_saveOne env _ s.key _ len (by decide))
    rw [userSettingsSetFrom_writes hs hw]
    dsimp only
    split
    · exact hstored
    · obtain ⟨t,ht,hr⟩ := getByKey_of_registrations hstored.setup.regs hs
      have hself : (valueStoredFrom env cb w s p len).getByKey t.key=some t := by
        rw [key_of_registration hr,ht]
      rw [deref_eq ht]
      exact hstored.trans (untouched_flag (by decide) hread.flag hself true)
  · rw [userSettingsSetFrom_keeps hw]
    exact Untouched.refl read .default w

/-- Setting a default value leaves the other cells alone. -/
theorem untouched_setDefault (h : subtree≠.default) (hs : w.getByKey s.key=some s) :
    CellsUntouched subtree w (prvUserSettingsSetDefault env cb w s data len).1 := by
  by_cases hw : WritesDefault env s data len
  · have hwritten : CellsUntouched subtree w (defaultWritten w s data len) := by
      unfold defaultWritten
      split
      · exact Untouched.refl _ subtree w
      · refine untouched_modify (fun _ => rfl) fun t _ => ?_
        cases subtree with
        | default => exact absurd rfl h
        | value | changed => rfl
    rw [userSettingsSetDefault_writes hs hw]
    exact hwritten.trans (untouched_saveOne env _ s.key data len h.symm)
  · rw [userSettingsSetDefault_keeps hw]
    exact Untouched.refl _ subtree w

/-- Restoring a setting leaves all default values alone. -/
theorem untouched_restore (hread : OfDefault read) (hcb : Sparing read .default cb)
    (hs : w.getByKey s.key=some s) :
    Untouched read .default w (prvSettingsRestore env cb w s) := by
  unfold prvSettingsRestore
  split
  · exact untouched_set (p:=fun _ => s.defaultData.mem) hread hcb hs
  · exact Untouched.refl read .default w

mutual

/-- One call of a callback leaves all default values alone. -/
theorem untouched_exec (hread : OfDefault read) (env : Env) :
    ∀ (reaction : Reaction) (w : World),
      Untouched read .default w (Reaction.exec env reaction w)
  | .set target p len onGlobal onOwn,w => by
    unfold Reaction.exec
    cases hf : w.find target with
    | none => exact Untouched.refl read .default w
    | some s =>
      exact untouched_set hread ⟨fun u => untouched_execAll hread env onGlobal u,
        fun u => untouched_execAll hread env onOwn u⟩ (getByKey_of_find hf)

/-- All calls of a callback leave all default values alone. -/
theorem untouched_execAll (hread : OfDefault read) (env : Env) :
    ∀ (reactions : List Reaction) (w : World),
      Untouched read .default w (Reaction.execAll env reactions w)
  | [],w => Untouched.refl read .default w
  | reaction::rest,w => by
    unfold Reaction.execAll
    exact (untouched_exec hread env reaction w).trans (untouched_execAll hread env rest _)

end

/-- Whatever the callbacks of the application do, they spare default values. -/
theorem callbacks_sparing (hread : OfDefault read) (env : Env) :
    Sparing read .default env.callbacks :=
  ⟨fun w => untouched_execAll hread env _ w,fun w => untouched_execAll hread env _ w⟩

/-- A restore passes a pointer to the default value of the record. Reading it
again after the callbacks gives what it gave before them, whatever they set. -/
theorem restore_reads_default (hs : w.getByKey s.key=some s) :
    prvUserSettingsSetFrom env env.callbacks w s (fun u => (u.deref s).defaultData.mem)
        s.defaultDataLen=
      prvUserSettingsSet env env.callbacks w s s.defaultData.mem s.defaultDataLen := by
  have hread : OfDefault (fun s => s.defaultData.mem) := ⟨fun _ _ => rfl,fun _ _ => rfl⟩
  have hnow : (w.deref s).defaultData.mem=s.defaultData.mem := by rw [deref_eq hs]
  have hlater : ((valueWritten env.callbacks w s s.defaultData.mem s.defaultDataLen).deref
      s).defaultData.mem=s.defaultData.mem := by
    have hspared := (untouched_valueWritten hread (callbacks_sparing hread env) w s
      s.defaultData.mem s.defaultDataLen).records s.key
    rw [hs] at hspared
    obtain ⟨t,ht,hsame⟩ := Option.map_eq_some_iff.mp hspared
    rw [deref_eq ht]
    exact hsame
  by_cases hw : Writes s s.defaultData.mem s.defaultDataLen
  · rw [userSettingsSetFrom_writes hs (by rw [hnow]; exact hw),userSettingsSet_writes hs hw]
    unfold valueStoredFrom valueStored
    dsimp only
    rw [hnow,hlater]
  · rw [userSettingsSetFrom_keeps (by rw [hnow]; exact hw),userSettingsSet_keeps hw,hnow]

/-- A delivery for another subtree, whatever is read. -/
theorem untouched_hSet (hcb : Sparing (fun s => content s subtree) subtree cb)
    (h : other≠subtree) (w : World) (key : CString) (len : ℕ) (readCb : ReadCb) :
    CellsUntouched subtree w (hSet cb w other key len readCb).1 := by
  have hloaded : ∀ bytes,CellsUntouched subtree w (w.modify key (loadUpdate other bytes)) :=
    fun bytes => untouched_modify (plain_loadUpdate other bytes)
      fun t _ => content_loadUpdate_ne h.symm bytes t
  rcases hSet_cases cb w other key len readCb with he|⟨s,bytes,_,he|⟨_,he⟩⟩ <;> rw [he]
  · exact Untouched.refl _ subtree w
  · exact hloaded bytes
  · exact (hloaded bytes).trans (untouched_notify hcb _ s)

/-- Loading another subtree, whatever is stored. -/
theorem untouched_loadSubtree (hcb : Sparing (fun s => content s subtree) subtree cb)
    (h : other≠subtree) (w : World) (loading : Loading) :
    CellsUntouched subtree w (settingsLoadSubtree cb w other loading).1 := by
  refine loadSubtree_keeps (fun d _ u hu => ?_) (Untouched.refl _ subtree w)
  exact hu.trans (untouched_hSet hcb h u d.key d.len d.readCb)

/-- An entry that is loaded again where its content already is. -/
theorem content_loadUpdate {entry : List UInt8}
    (h : content s subtree=decode subtree s.maxSize (some entry)) :
    content ((loadUpdate subtree entry).apply s) subtree=content s subtree := by
  cases subtree with
  | default =>
    dsimp only [decode,loadUpdate] at h ⊢
    by_cases hc : s.maxSize<entry.length ∨ entry=[]
    · rw [if_pos hc]
    · have hf : entry.length ≤ s.maxSize := by omega
      rw [if_neg hc] at h ⊢
      rw [h]
      exact congrArg some (Buffer.take_write hf)
  | value =>
    dsimp only [decode,loadUpdate] at h ⊢
    by_cases hc : s.maxSize<entry.length ∨ entry=[]
    · rw [if_pos hc]
    · have hf : entry.length ≤ s.maxSize := by omega
      rw [if_neg hc] at h ⊢
      rw [h]
      exact congrArg some (Buffer.take_write hf)
  | changed =>
    cases entry with
    | nil => rfl
    | cons byte rest => exact h.symm

/-- A subtree other than the values loads without calling callbacks. -/
theorem hSet_quiet (ht : subtree≠.value) (cb : Callbacks) (w : World) (key : CString)
    (entry : List UInt8) : (hSet cb w subtree key entry.length (storedReadCb entry)).1=
      w.modify key (loadUpdate subtree entry) := by
  cases subtree with
  | default => exact prvDefaultSetCb_stored w key entry
  | value => exact absurd rfl ht
  | changed => exact prvChangedFlagSetCb_stored w key entry

/-- One cell of every setting in RAM is what some entries say. -/
def Shows (subtree : Subtree) (entries : Entries) (w : World) : Prop :=
  ∀ key s,w.getByKey key=some s →
    content s subtree=decode subtree s.maxSize (entries.lookup (keyWithPrefix subtree key))

/-- Cells in RAM that agree with those in storage show its entries. -/
theorem shows_of_agree (ha : ∀ key,ram w (subtree,key)=stored w (subtree,key)) :
    Shows subtree w.nvs w := by
  intro key s hs
  rw [←ram_eq hs,ha,stored_eq hs]

/-- Cells that are left alone show the same entries as before. -/
theorem Shows.untouched {entries : Entries} (h : Shows subtree entries w)
    (hu : CellsUntouched subtree w next) : Shows subtree entries next := by
  intro key s hs
  obtain ⟨t,ht,hr⟩ := getByKey_of_registrations hu.setup.regs.symm hs
  have hsize : t.maxSize=s.maxSize := maxSize_of_registration hr
  rw [←ram_eq hs,hu.inRam,ram_eq ht,h key t ht,hsize]

/-- Loading again what the cells already show. -/
theorem untouched_reloadSubtree (ht : subtree≠.value) (cb : Callbacks) {entries : Entries}
    (hw : Shows subtree entries w) : CellsUntouched subtree w
      (settingsLoadSubtree cb w subtree (loadingOf entries.entries subtree)).1 := by
  refine loadSubtree_keeps (fun d hd u hu => ?_) (Untouched.refl _ subtree w)
  obtain ⟨entry,hlookup,hd⟩ := mem_loadingOf hd
  rw [hd,hSet_quiet ht]
  refine hu.trans (untouched_modify (plain_loadUpdate subtree entry) fun s hs => ?_)
  refine content_loadUpdate ?_
  rw [←hlookup]
  exact hw.untouched hu d.key s hs

/-- A repeated load leaves a cell other than the value alone if its copies agree. -/
theorem untouched_load (ht : subtree≠.value)
    (hcb : Sparing (fun s => content s subtree) subtree env.callbacks) (hl : w.isLoaded=true)
    (ha : ∀ key,ram w (subtree,key)=stored w (subtree,key)) {ret : ℤ}
    (h : userSettingsLoad env w (loadingOf w.nvs.entries)=.ok (next,ret)) :
    CellsUntouched subtree w next := by
  refine load_keeps (fun part u hu => hu.trans ?_) (fun u hu => ?_) (Untouched.refl _ subtree w) h
  · by_cases hp : part=subtree
    · rw [hp]
      exact untouched_reloadSubtree ht _ ((shows_of_agree ha).untouched hu)
    · exact untouched_loadSubtree hcb hp u _
  · exact ⟨⟨hu.setup.regs,hu.setup.globalOnChangeCb,hu.setup.isInited,hl.symm⟩,hu.records,
      hu.inStorage⟩

end UserSettings.Reload
