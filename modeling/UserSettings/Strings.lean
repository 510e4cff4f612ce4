import UserSettings.Export
import UserSettings.Nesting
import UserSettings.Range
import UserSettings.Reload
import UserSettings.Shell

/-!
# String settings and their terminators

The buffer of a string setting is read as a C string, so a terminator must
lie inside it. Imports of JSON and the shell always pass one on. The other
writers take any bytes: what decides is whether a terminator is among them or
in the end of the old buffer that they leave in place.
-/

namespace UserSettings.Strings

open Bytes Settings Storage Store Effects Setters Reactions Load Records Cells Operations
open Transition Binary Executor Json Commands Device Moves Nesting Range Shell Export

/-- What is written or what it leaves of the old buffer has a terminator. -/
def Ends {size : ℕ} (buffer : Buffer size) (data : Mem) (len : ℕ) : Prop :=
  (0 : UInt8)∈bytesAt data len ∨ (0 : UInt8)∈buffer.bytes.drop len

/-- A call that writes to a string setting leaves a terminator. -/
def CallEnds (env : Env) (s : UserSetting) : SettingCall → Prop
  | .set data len => Writes s data len → 0<len → Ends s.data data len
  | .setDefault data len => WritesDefault env s data len → 0<len → Ends s.defaultData data len
  | .restoreDefault => s.isSet=true → Writes s s.defaultData.mem s.defaultDataLen →
      0<s.defaultDataLen → Ends s.data s.defaultData.mem s.defaultDataLen
  | .setChanged | .clearChanged => True

/-- A move that writes to string settings leaves terminators; what is loaded
over values in use has them itself. -/
def MoveEnds (env : Env) (w : World) : Move → Prop
  | .call target call => ∀ s,w.find target=some s → s.type=.str → CallEnds env s call
  | .load => ∀ s∈w.list.items,s.type=.str → ∀ subtree,subtree≠.changed → ∀ entry,
      w.nvs.lookup (keyWithPrefix subtree s.key)=some entry → (0 : UInt8)∈entry
  | .reboot => True

/-- All moves of an action leave terminators; nothing is asked of imports of
JSON and of texts given to the shell. -/
def ActionEnds (env : Env) (setup : Setup) (w : World) (action : Action) : Prop :=
  match action with
  | .device (.json _ _ _) | .shell _ (.set _ _) | .shell _ (.setDefault _ _) => True
  | _ => Meets (moveStep env setup) (MoveEnds env) w (action.moves env w)

/-- A set call with a pointer leaves a terminator: among the bytes that it writes
to RAM or in the end of the old value, and if they fill the buffer, among the
bytes that the pointer points to when they are stored. -/
def PointerEnds (cb : Callbacks) (w : World) (s : UserSetting) (p : Pointer) (len : ℕ) :
    Prop :=
  Writes s (p w) len → 0<len → Ends s.data (p w) len ∧
    (len=s.maxSize → (0 : UInt8)∈bytesAt (p (valueWritten cb w s (p w) len)) len)

/-- A step that writes to string settings leaves terminators. -/
def StepEnds (env : Env) (setup : Setup) (w : World) : Pointed Action → Prop
  | .op action => ActionEnds env setup w action
  | .setFrom target p len => ∀ s,w.find target=some s → s.type=.str →
    PointerEnds env.callbacks w s p len

/-- A set call for a string setting has a terminator among its bytes, whenever
they are read. -/
def GivesText (setup : Setup) (target : Target) (p : Pointer) (len : ℕ) : Prop :=
  ∀ r∈setup.regs,Names r target → r.type=.str → ∀ w,(0 : UInt8)∈bytesAt (p w) len

/-- The entries of string settings that fill all their space have terminators. -/
def StoredEnds (setup : Setup) (nvs : Entries) : Prop :=
  ∀ r∈registered setup,r.type=.str → ∀ subtree,subtree≠.changed → ∀ entry,
    nvs.lookup (keyWithPrefix subtree r.key)=some entry → entry.length=r.size → (0 : UInt8)∈entry

/-- A string setting is a terminated C string wherever it is read as one. -/
structure StringSafe (s : UserSetting) : Prop where
  /-- The value, if it is set. -/
  value : s.isSet=true → ∃ i<s.maxSize,s.data.mem i=0
  /-- The default value, if it is set. -/
  default : s.defaultIsSet=true → ∃ i<s.maxSize,s.defaultData.mem i=0
  /-- The export does not read behind the value. -/
  json : s.isSet=true → ∀ stack,∃ setting,prvJsonFromSetting stack s=.ok setting
  /-- The shell reads behind neither of them. -/
  shell : ∃ text,prvShellPrintSetting s=.ok text

/-- The halves of a string setting in use have terminators. -/
structure StringOk (s : UserSetting) : Prop where
  /-- The value. -/
  value : s.type=.str → s.isSet=true → (0 : UInt8)∈s.data.bytes
  /-- The default value. -/
  default : s.type=.str → s.defaultIsSet=true → (0 : UInt8)∈s.defaultData.bytes

/-- A device with its setup whose strings are terminated, in RAM and where
they fill an entry. -/
structure StringStore (setup : Setup) (w : World) : Prop where
  /-- The setup is registered. -/
  regs : registrations w=registered setup
  /-- All records. -/
  records : AllRecords StringOk w
  /-- All entries. -/
  stored : StoredEnds setup w.nvs

/-- Callbacks that keep all strings terminated. -/
structure Keeping (setup : Setup) (cb : Callbacks) : Prop where
  /-- The global callback. -/
  global : ∀ w,StringStore setup w → StringStore setup (cb.global w)
  /-- The callback of the setting. -/
  own : ∀ w,StringStore setup w → StringStore setup (cb.own w)

variable {env : Env} {cb : Callbacks} {setup : Setup} {w next : World} {s : UserSetting}
  {data : Mem} {len : ℕ} {subtree : Subtree} {key : CString} {entry : List UInt8}

/-- The buffer after a write. -/
theorem mem_write {size : ℕ} (buffer : Buffer size) (hf : len ≤ size) :
    (0 : UInt8)∈(buffer.write (bytesAt data len)).bytes ↔ Ends buffer data len := by
  have hlen : (bytesAt data len).length ≤ size := by rw [length_bytesAt]; exact hf
  rw [Buffer.bytes_write hlen,List.mem_append,length_bytesAt]
  rfl

/-- A changed record. -/
theorem stringStore_modify {u : Update} (hw : StringStore setup w) (hu : Plain u)
    (hc : ∀ s,w.getByKey key=some s → StringOk s → StringOk (u.apply s)) :
    StringStore setup (w.modify key u) :=
  ⟨(registrations_modify hu w key).trans hw.regs,hw.records.modify hc,hw.stored⟩

/-- A stored entry. -/
theorem stringStore_saveOne (hw : StringStore setup w) (hs : w.getByKey s.key=some s)
    (hb : subtree≠.changed → s.type=.str → len=s.maxSize → 0<len → (0 : UInt8)∈bytesAt data len) :
    StringStore setup (settingsSaveOne env w (keyWithPrefix subtree s.key) data len).1 := by
  refine ⟨(sameSetup_saveOne ..).regs.trans hw.regs,?_,?_⟩
  · intro t ht
    rw [saveOne_list] at ht
    exact hw.records t ht
  · intro r hr htype other hne entry hlook hfull
    rw [saveOne_lookup] at hlook
    split at hlook
    · rename_i hname
      obtain ⟨rfl,hkey⟩ := keyWithPrefix_inj.mp hname.1
      have hreg : r=registration s := registered_eq hw.regs hs hr hkey
      subst hreg
      split at hlook
      · cases hlook
      · rename_i hn
        cases hlook
        rw [length_bytesAt] at hfull
        exact hb hne htype hfull (by omega)
    · exact hw.stored r hr htype other hne entry hlook hfull

/-- A call of both callbacks. -/
theorem stringStore_notify (hcb : Keeping setup cb) (hw : StringStore setup w) (s : UserSetting) :
    StringStore setup (notifyOwn cb (notifyGlobal cb w s) s) := by
  have hrecord : ∀ (u : World) (kind : CallbackKind),StringStore setup u →
      StringStore setup (u.notify kind s) := fun _ _ hu => ⟨hu.regs,hu.records,hu.stored⟩
  have hglobal : StringStore setup (notifyGlobal cb w s) := by
    unfold notifyGlobal
    split
    · exact hcb.global _ (hrecord w .global hw)
    · exact hw
  unfold notifyOwn
  split
  · exact hcb.own _ (hrecord _ .own hglobal)
  · exact hglobal

/-- A changed flag. -/
theorem stringStore_flag (hw : StringStore setup w) (hs : w.getByKey s.key=some s) (flag : Bool) :
    StringStore setup (prvSetChangedRecentlyFlag env cb w s flag).1 := by
  rw [setChangedRecentlyFlag_eq hs]
  split
  · exact hw
  · have hmarked : StringStore setup (w.modify s.key (storeFlag flag)) :=
      stringStore_modify hw (fun _ => rfl) fun _ _ ht => ⟨ht.value,ht.default⟩
    have hrec : (w.modify s.key (storeFlag flag)).getByKey ((storeFlag flag).apply s).key=
        some ((storeFlag flag).apply s) := modify_self _ hs
    have hsaved : ∀ t,(w.modify s.key (storeFlag flag)).getByKey t.key=some t →
        StringStore setup (settingsSaveOne env (w.modify s.key (storeFlag flag))
          (keyWithPrefix .changed t.key) (memOf [boolByte flag]) 1).1 :=
      fun t ht => stringStore_saveOne hmarked ht fun h => absurd rfl h
    exact hsaved ((storeFlag flag).apply s) hrec

/-- A written value. -/
theorem stringStore_storeValue (hw : StringStore setup w) (hs : w.getByKey s.key=some s)
    (hf : len ≤ s.maxSize) (he : s.type=.str → Ends s.data data len) :
    StringStore setup (w.modify s.key (storeValue (bytesAt data len))) := by
  refine stringStore_modify hw (fun _ => rfl) fun t ht hok => ?_
  rw [hs] at ht
  cases ht
  exact ⟨fun htype _ => (mem_write s.data hf).mpr (he htype),hok.default⟩

/-- A written default value. -/
theorem stringStore_storeDefault (hw : StringStore setup w) (hs : w.getByKey s.key=some s)
    (hf : len ≤ s.maxSize) (he : s.type=.str → Ends s.defaultData data len) :
    StringStore setup (w.modify s.key (storeDefault (bytesAt data len))) := by
  refine stringStore_modify hw (fun _ => rfl) fun t ht hok => ?_
  rw [hs] at ht
  cases ht
  exact ⟨hok.value,fun htype _ => (mem_write s.defaultData hf).mpr (he htype)⟩

/-- Bytes that fill a whole buffer leave nothing of it. -/
theorem mem_of_ends {size : ℕ} {buffer : Buffer size} (h : Ends buffer data len) (hlen : len=size) :
    (0 : UInt8)∈bytesAt data len := by
  have hdrop : buffer.bytes.drop len=[] := by
    rw [hlen,List.drop_eq_nil_iff,buffer.length_eq]
  unfold Ends at h
  rw [hdrop] at h
  exact h.resolve_right List.not_mem_nil

/-- Data that stays as it is leaves a terminator when it does so in RAM. -/
theorem pointerEnds_of_ends (he : Writes s data len → 0<len → Ends s.data data len) :
    PointerEnds cb w s (fun _ => data) len :=
  fun hw hn => ⟨he hw hn,fun hfull => mem_of_ends (he hw hn) hfull⟩

/-- A set call. -/
theorem stringStore_set {p : Pointer} (hcb : Keeping setup cb) (hw : StringStore setup w)
    (hs : w.getByKey s.key=some s) (he : s.type=.str → PointerEnds cb w s p len) :
    StringStore setup (prvUserSettingsSetFrom env cb w s p len).1 := by
  by_cases hwr : Writes s (p w) len
  · have hwritten : StringStore setup (valueWritten cb w s (p w) len) := by
      unfold valueWritten
      split
      · exact hw
      · rename_i hn
        exact stringStore_notify hcb (stringStore_storeValue hw hs hwr.fits
          fun ht => (he ht hwr (by omega)).1) s
    obtain ⟨t,ht,hreg⟩ := getByKey_of_registrations (hwritten.regs.trans hw.regs.symm) hs
    have hkey : t.key=s.key := key_of_registration hreg
    have htype : t.type=s.type := congrArg Registration.type hreg
    have hsize : t.maxSize=s.maxSize := maxSize_of_registration hreg
    have hstored : StringStore setup (valueStoredFrom env cb w s p len) := by
      unfold valueStoredFrom
      dsimp only
      rw [←hkey] at ht ⊢
      refine stringStore_saveOne hwritten ht fun _ hstr hfull hn => ?_
      exact (he (htype.symm.trans hstr) hwr hn).2 (hfull.trans hsize)
    obtain ⟨v,hv,hreg⟩ := getByKey_of_registrations (hstored.regs.trans hw.regs.symm) hs
    have hself : (valueStoredFrom env cb w s p len).getByKey v.key=some v := by
      rw [key_of_registration hreg,hv]
    rw [userSettingsSetFrom_writes hs hwr]
    dsimp only
    split
    · exact hstored
    · rw [deref_eq hv]
      exact stringStore_flag hstored hself true
  · rw [userSettingsSetFrom_keeps hwr]
    exact hw

/-- A set_default call. -/
theorem stringStore_setDefault (hw : StringStore setup w) (hs : w.getByKey s.key=some s)
    (he : s.type=.str → WritesDefault env s data len → 0<len → Ends s.defaultData data len) :
    StringStore setup (prvUserSettingsSetDefault env cb w s data len).1 := by
  by_cases hwr : WritesDefault env s data len
  · have hwritten : StringStore setup (defaultWritten w s data len) := by
      unfold defaultWritten
      split
      · exact hw
      · rename_i hn
        exact stringStore_storeDefault hw hs hwr.fits fun ht => he ht hwr (by omega)
    obtain ⟨t,ht,hreg⟩ := getByKey_of_registrations (hwritten.regs.trans hw.regs.symm) hs
    have hkey : t.key=s.key := key_of_registration hreg
    have htype : t.type=s.type := congrArg Registration.type hreg
    have hsize : t.maxSize=s.maxSize := maxSize_of_registration hreg
    rw [userSettingsSetDefault_writes hs hwr]
    dsimp only
    rw [←hkey] at ht ⊢
    refine stringStore_saveOne hwritten ht fun _ hstr hfull hn => ?_
    exact mem_of_ends (he (htype.symm.trans hstr) hwr hn) (hfull.trans hsize)
  · rw [userSettingsSetDefault_keeps hwr]
    exact hw

/-- A restore. -/
theorem stringStore_restore (hcb : Keeping setup cb) (hw : StringStore setup w)
    (hs : w.getByKey s.key=some s) (he : s.type=.str → CallEnds env s .restoreDefault) :
    StringStore setup (prvSettingsRestore env cb w s) := by
  unfold prvSettingsRestore
  split
  · rename_i hset
    exact stringStore_set (p:=fun _ => s.defaultData.mem) hcb hw hs
      fun ht => pointerEnds_of_ends (he ht hset)
  · exact hw

/-- A registered string setting named by a target is given text. -/
theorem ends_of_givesText {target : Target} {p : Pointer}
    (hregs : registrations w=registered setup) (hs : w.find target=some s) (hstr : s.type=.str)
    (h : GivesText setup target p len) (u : World) : (0 : UInt8)∈bytesAt (p u) len := by
  have hmem : registration s∈registered setup := by
    rw [←hregs]
    exact List.mem_map_of_mem (getByKey_some (getByKey_of_find hs)).1
  obtain ⟨r,hr,hreg⟩ := List.mem_map.mp hmem
  have hkey : r.key=s.key := congrArg Registration.key hreg
  have hid : r.id=s.id := congrArg Registration.id hreg
  have htype : r.type=s.type := congrArg Registration.type hreg
  refine h r hr ?_ (htype.trans hstr) u
  cases target with
  | key key => exact (key_of_getByKey hs).symm.trans hkey.symm
  | id id =>
    have hfound : s.id=id := (getById_some hs).2
    exact hfound.symm.trans hid.symm

mutual

/-- A call of a callback with text. -/
theorem stringStore_exec (env : Env) : ∀ (reaction : Reaction) (w : World),
      Each (GivesText setup) reaction → StringStore setup w →
      StringStore setup (Reaction.exec env reaction w)
  | .set target p len onGlobal onOwn,w,⟨hc,hg,ho⟩,hw => by
    unfold Reaction.exec
    cases hf : w.find target with
    | none => exact hw
    | some s =>
      have hcb : Keeping setup ⟨Reaction.execAll env onGlobal,Reaction.execAll env onOwn⟩ :=
        ⟨fun u hu => stringStore_execAll env onGlobal u hg hu,
          fun u hu => stringStore_execAll env onOwn u ho hu⟩
      exact stringStore_set hcb hw (getByKey_of_find hf)
        fun hstr _ _ => ⟨.inl (ends_of_givesText hw.regs hf hstr hc w),
          fun _ => ends_of_givesText hw.regs hf hstr hc _⟩

/-- All calls of a callback with texts. -/
theorem stringStore_execAll (env : Env) : ∀ (reactions : List Reaction) (w : World),
      EachAll (GivesText setup) reactions → StringStore setup w →
      StringStore setup (Reaction.execAll env reactions w)
  | [],_,_,hw => hw
  | reaction::rest,w,⟨hone,hrest⟩,hw => by
    unfold Reaction.execAll
    exact stringStore_execAll env rest _ hrest (stringStore_exec env reaction w hone hw)

end

/-- Callbacks whose calls give texts. -/
theorem callbacks_keeping (hreact : ∀ n,EachAll (GivesText setup) (env.react n)) :
    Keeping setup env.callbacks :=
  ⟨fun w hw => stringStore_execAll env _ w (hreact _) hw,
    fun w hw => stringStore_execAll env _ w (hreact _) hw⟩

/-- A loaded entry, or what it leaves of the half it is loaded to, has a terminator. -/
def EntryEnds (s : UserSetting) (entry : List UInt8) : Subtree → Prop
  | .default => (0 : UInt8)∈entry ∨ (0 : UInt8)∈s.defaultData.bytes.drop entry.length
  | .value => (0 : UInt8)∈entry ∨ (0 : UInt8)∈s.data.bytes.drop entry.length
  | .changed => True

/-- An entry with a terminator ends whatever it is loaded to. -/
theorem entryEnds_of_mem (h : subtree≠.changed → (0 : UInt8)∈entry) :
    EntryEnds s entry subtree := by
  cases subtree with
  | default | value => exact .inl (h (by decide))
  | changed => trivial

/-- Loading an entry. -/
theorem stringOk_loadUpdate (hok : StringOk s)
    (he : s.type=.str → entry.length ≤ s.maxSize → EntryEnds s entry subtree) :
    StringOk ((loadUpdate subtree entry).apply s) := by
  refine loadUpdate_keeps ?_ ?_ ?_ hok
  · rintro rfl _ hf
    refine ⟨fun ht _ => ?_,hok.default⟩
    change (0 : UInt8)∈(s.data.write entry).bytes
    rw [Buffer.bytes_write hf,List.mem_append]
    exact he ht hf
  · rintro rfl _ hf
    refine ⟨hok.value,fun ht _ => ?_⟩
    change (0 : UInt8)∈(s.defaultData.write entry).bytes
    rw [Buffer.bytes_write hf,List.mem_append]
    exact he ht hf
  · exact fun _ _ => ⟨hok.value,hok.default⟩

/-- Loading a subtree to a record. -/
theorem stringOk_loadFrom {nvs : Entries} (hok : StringOk s)
    (he : ∀ entry,nvs.lookup (keyWithPrefix subtree s.key)=some entry → s.type=.str →
      entry.length ≤ s.maxSize → EntryEnds s entry subtree) :
    StringOk (loadFrom subtree nvs.entries s) := by
  unfold loadFrom
  split
  · exact hok
  · rename_i entry hlook
    exact stringOk_loadUpdate hok (he entry hlook)

/-- An entry that does not fill a cleared buffer leaves zeros of it. -/
theorem mem_or_drop_zero {size : ℕ} (hf : entry.length ≤ size)
    (hfull : entry.length=size → (0 : UInt8)∈entry) :
    (0 : UInt8)∈entry ∨ (0 : UInt8)∈(Buffer.zero size).bytes.drop entry.length := by
  by_cases hlen : entry.length=size
  · exact .inl (hfull hlen)
  · refine .inr ?_
    have hrest : size-entry.length≠0 := by omega
    unfold Buffer.zero
    rw [List.drop_replicate,List.mem_replicate]
    exact ⟨hrest,rfl⟩

/-- Loading default values leaves the value buffers alone. -/
theorem loadFrom_default_data (entries : List (Σ _ : CString,List UInt8)) (s : UserSetting) :
    (loadFrom .default entries s).data.bytes=s.data.bytes := by
  unfold loadFrom
  split
  · rfl
  · exact loadUpdate_keeps (P:=fun t => t.data.bytes=s.data.bytes) nofun (fun _ _ _ => rfl)
      (fun _ _ => rfl) rfl

/-- What a start loads is terminated if full entries are. -/
theorem stringOk_loadRecord {nvs : Entries} {r : Registration} (hr : r∈setup.regs)
    (hs : StoredEnds setup nvs) : StringOk (loadRecord nvs (record r)) := by
  have hfull : ∀ subtree,subtree≠.changed → ∀ entry,
      nvs.lookup (keyWithPrefix subtree r.key)=some entry → r.type=.str →
      entry.length=space r → (0 : UInt8)∈entry := fun subtree hne entry hlook ht hlen =>
    hs _ (List.mem_map_of_mem hr) ht subtree hne entry hlook hlen
  have hfresh : StringOk (record r) := by
    constructor
    · intro _ hset
      cases hset
    · intro _ hset
      cases hset
  have hdefault : StringOk (loadFrom .default nvs.entries (record r)) :=
    stringOk_loadFrom hfresh fun entry hlook ht hf =>
      mem_or_drop_zero hf (hfull .default (by decide) entry hlook ht)
  have hzero : (loadFrom .default nvs.entries (record r)).data.bytes=
      (Buffer.zero (space r)).bytes := loadFrom_default_data nvs.entries (record r)
  have hreg : registration (loadFrom .default nvs.entries (record r))=registration (record r) :=
    registration_loadFrom .default nvs.entries (record r)
  have hkey : (loadFrom .default nvs.entries (record r)).key=r.key :=
    congrArg Registration.key hreg
  have htype : (loadFrom .default nvs.entries (record r)).type=r.type :=
    congrArg Registration.type hreg
  have hsize : (loadFrom .default nvs.entries (record r)).maxSize=space r :=
    congrArg Registration.size hreg
  have hvalue : StringOk (loadFrom .value nvs.entries
      (loadFrom .default nvs.entries (record r))) := by
    refine stringOk_loadFrom hdefault fun entry hlook ht hf => ?_
    unfold EntryEnds
    rw [hzero]
    exact mem_or_drop_zero (hsize ▸ hf)
      (hfull .value (by decide) entry (hkey ▸ hlook) (htype.symm.trans ht))
  exact stringOk_loadFrom hvalue fun _ _ _ _ => trivial

/-- A start from terminated entries. -/
theorem stringStore_booted (hs : StoredEnds setup w.nvs) (h : Booted setup w next) :
    StringStore setup next := by
  refine ⟨booted_registrations h,?_,h.nvs ▸ hs⟩
  intro s hmem
  rw [h.items] at hmem
  obtain ⟨r,hr,rfl⟩ := List.mem_map.mp hmem
  exact stringOk_loadRecord hr hs

/-- A delivery of an entry with a terminator. -/
theorem stringStore_hSet (hcb : Keeping setup cb) (hw : StringStore setup w)
    (he : ∀ s,w.getByKey key=some s → s.type=.str → subtree≠.changed → (0 : UInt8)∈entry) :
    StringStore setup (hSet cb w subtree key entry.length (storedReadCb entry)).1 := by
  have hmodify : StringStore setup (w.modify key (loadUpdate subtree entry)) :=
    stringStore_modify hw (plain_loadUpdate subtree entry) fun s hs hok =>
      stringOk_loadUpdate hok fun ht _ => entryEnds_of_mem (he s hs ht)
  by_cases hv : subtree=.value
  · subst hv
    dsimp only [hSet]
    rcases prvValueSetCb_cases cb w key entry with h|⟨s,_,h⟩
    · rw [h]
      exact hmodify
    · rw [h]
      exact stringStore_notify hcb hmodify s
  · rw [Reload.hSet_quiet hv cb w key entry]
    exact hmodify

/-- A repeated load of entries with terminators. -/
theorem stringStore_loadSubtree (hcb : Keeping setup cb) {nvs : Entries}
    (he : ∀ r∈registered setup,r.type=.str → ∀ subtree,subtree≠.changed → ∀ entry,
      nvs.lookup (keyWithPrefix subtree r.key)=some entry → (0 : UInt8)∈entry)
    (subtree : Subtree) (hw : StringStore setup w) :
    StringStore setup (settingsLoadSubtree cb w subtree (loadingOf nvs.entries subtree)).1 := by
  refine loadSubtree_keeps (fun d hd u hu => ?_) hw
  obtain ⟨entry,hlookup,hd⟩ := mem_loadingOf hd
  rw [hd]
  refine stringStore_hSet hcb hu fun s hs ht hne => ?_
  have hreg : registration s∈registered setup := by
    rw [←hu.regs]
    exact List.mem_map_of_mem (getByKey_some hs).1
  have hkey : s.key=d.key := key_of_getByKey hs
  exact he (registration s) hreg ht subtree hne entry (by rw [←hlookup,←hkey]; rfl)

/-- A repeated load. -/
theorem stringStore_load (hcb : Keeping setup env.callbacks) (hw : StringStore setup w)
    (he : MoveEnds env w .load) {ret : ℤ}
    (h : userSettingsLoad env w (loadingOf w.nvs.entries)=.ok (next,ret)) :
    StringStore setup next := by
  have hentries : ∀ r∈registered setup,r.type=.str → ∀ subtree,subtree≠.changed → ∀ entry,
      w.nvs.lookup (keyWithPrefix subtree r.key)=some entry → (0 : UInt8)∈entry := by
    intro r hr
    rw [←hw.regs] at hr
    obtain ⟨s,hs,rfl⟩ := List.mem_map.mp hr
    exact he s hs
  exact load_keeps (fun subtree _ hu => stringStore_loadSubtree hcb hentries subtree hu)
    (fun _ hu => ⟨hu.regs,hu.records,hu.stored⟩) hw h

/-- A move that leaves terminators keeps all strings terminated. -/
theorem stringStore_move (hcb : Keeping setup env.callbacks) {move : Move}
    (hw : StringStore setup w) (he : MoveEnds env w move)
    (h : moveStep env setup w move=some next) : StringStore setup next := by
  cases move with
  | call target call =>
    obtain ⟨_,s,hs,rfl⟩ := moveStep_call.mp h
    have hfound := getByKey_of_find hs
    have hends := he s hs
    cases call with
    | set data len =>
      exact stringStore_set (p:=fun _ => data) hcb hw hfound
        fun hstr => pointerEnds_of_ends (hends hstr)
    | setDefault data len => exact stringStore_setDefault hw hfound hends
    | restoreDefault => exact stringStore_restore hcb hw hfound hends
    | setChanged => exact stringStore_flag hw hfound true
    | clearChanged => exact stringStore_flag hw hfound false
  | load =>
    obtain ⟨⟨loaded,ret⟩,hload,rfl⟩ := Option.map_eq_some_iff.mp h
    exact stringStore_load hcb hw he (toOption_eq_some.mp hload)
  | reboot => exact stringStore_booted hw.stored (reboot_ok (toOption_eq_some.mp h))

/-- A move that passes texts on. -/
def MoveGives (setup : Setup) : Move → Prop
  | .call target (.set data len) | .call target (.setDefault data len) =>
    GivesText setup target (fun _ => data) len
  | .call _ .setChanged | .call _ .clearChanged => True
  | .call _ .restoreDefault | .load | .reboot => False

/-- Moves that pass texts on keep all strings terminated. -/
theorem stringStore_gives (hcb : Keeping setup env.callbacks) {moves : List Move}
    (hw : StringStore setup w) (hgives : ∀ move∈moves,MoveGives setup move)
    (h : run (moveStep env setup) w moves=some next) : StringStore setup next := by
  refine run_invariant (I:=StringStore setup) ?_ hw
    (meets_and hgives (meets_of_forall (C:=fun _ _ => True) (fun _ _ => trivial) w moves)) h
  intro u move v hu hc hstep
  refine stringStore_move hcb hu ?_ hstep
  cases move with
  | call target call =>
    intro s hs hstr
    cases call with
    | set data len => exact fun _ _ => .inl (ends_of_givesText hu.regs hs hstr hc.1 u)
    | setDefault data len => exact fun _ _ => .inl (ends_of_givesText hu.regs hs hstr hc.1 u)
    | restoreDefault => exact absurd hc.1 id
    | setChanged | clearChanged => trivial
  | load | reboot => exact absurd hc.1 id

/-- The text of a string with its terminator, wherever it lies. -/
theorem mem_bytesAt_write {text : CString} (stack : Mem) :
    (0 : UInt8)∈bytesAt (stack.write 0 text.withNul) text.withNul.length := by
  rw [bytesAt_write_zero]
  exact List.mem_append_right _ (List.mem_singleton.mpr rfl)

/-- The registration of a setting that a key names. -/
theorem type_of_registered (hregs : registrations w=registered setup)
    (hs : w.getByKey key=some s) {r : Registration} (hr : r∈setup.regs) (hk : key=r.key) :
    r.type=s.type := by
  have hkey : s.key=key := key_of_getByKey hs
  have hreg : registration (record r)=registration s :=
    registered_eq hregs (by rw [hkey,hs]) (List.mem_map_of_mem hr) (hk.symm.trans hkey.symm)
  exact congrArg Registration.type hreg

/-- Importing a member passes texts on to string settings. -/
theorem memberMoves_gives {stack : Mem} {type : UserSettingType} {setting : CJson}
    {alwaysMarkChanged : Bool}
    (htype : ∀ r∈setup.regs,key=r.key → r.type=type) :
    ∀ move∈memberMoves env stack w key type setting alwaysMarkChanged,MoveGives setup move := by
  unfold memberMoves
  cases hbytes : importBytes env.charIsSigned type setting with
  | error fault => exact fun _ h => absurd h List.not_mem_nil
  | ok bytes? =>
    cases bytes? with
    | none => exact fun _ h => absurd h List.not_mem_nil
    | some bytes =>
      have hset : MoveGives setup (.call (.key key) (.set (stack.write 0 bytes) bytes.length)) := by
        intro r hr hk hstr
        rw [←htype r hr hk,hstr] at hbytes
        unfold importBytes at hbytes
        dsimp only at hbytes
        split at hbytes
        · obtain ⟨text,_,htext⟩ := map_eq_ok.mp hbytes
          cases htext
          exact fun _ => mem_bytesAt_write stack
        · cases hbytes
      intro move hmove
      rcases List.mem_cons.mp hmove with rfl|hmark
      · exact hset
      · split at hmark
        · split at hmark
          · rw [List.mem_singleton.mp hmark]
            trivial
          · cases hmark
        · cases hmark

/-- An import passes texts on to string settings. -/
theorem jsonMoves_gives {stack : Mem} {alwaysMarkChanged : Bool} {settings : List CJson}
    (hregs : registrations w=registered setup) :
    ∀ move∈jsonMoves env stack alwaysMarkChanged w settings,MoveGives setup move := by
  induction settings generalizing w with
  | nil => exact fun _ h => absurd h List.not_mem_nil
  | cons setting rest ih =>
    unfold jsonMoves
    split
    · exact ih hregs
    · split
      · exact fun _ h => absurd h List.not_mem_nil
      · exact ih hregs
      · rename_i key _
        split
        · exact fun _ h => absurd h List.not_mem_nil
        · rename_i type htype
          obtain ⟨_,s,hs,hsame⟩ := withSetting_ok htype
          intro move hmove
          rcases List.mem_append.mp hmove with hmember|hlater
          · refine memberMoves_gives (fun r hr hk => ?_) move hmember
            exact (type_of_registered hregs hs hr hk).trans hsame.symm
          · split at hlater
            · cases hlater
            · rename_i next err hone
              split at hlater
              · cases hlater
              · exact ih ((prvSetFromJson_effects hone).sameSetup.regs.trans hregs) move hlater

/-- The shell passes texts on to string settings. -/
theorem textMoves_gives {stack : Mem} {value : CString} {call : Mem → ℕ → SettingCall}
    (hcall : ∀ data len,call data len=.set data len ∨ call data len=.setDefault data len)
    (hregs : registrations w=registered setup) (name : CString) :
    ∀ move∈callByName w name (textMoves env stack value call),MoveGives setup move := by
  unfold callByName
  cases hs : userSettingsListGetByKey w.list name with
  | none => exact fun _ h => absurd h List.not_mem_nil
  | some s =>
    dsimp only
    unfold textMoves
    cases hbytes : shellBytes env.charIsSigned s.type value with
    | error fault => exact fun _ h => absurd h List.not_mem_nil
    | ok bytes =>
      intro move hmove
      have hfind : w.find (.key name)=some s := hs
      have hgives : GivesText setup (.key s.key) (fun _ => stack.write 0 bytes) bytes.length := by
        intro r hr hk hstr
        rw [←type_of_registered hregs (getByKey_of_find hfind) hr hk,hstr] at hbytes
        cases hbytes
        exact fun _ => mem_bytesAt_write stack
      rw [List.mem_singleton.mp hmove]
      rcases hcall (stack.write 0 bytes) bytes.length with h|h <;> rw [h] <;> exact hgives

/-- An action whose writes leave terminators keeps all strings terminated. -/
theorem stringStore_action (hcb : Keeping setup env.callbacks) {action : Action}
    (hw : StringStore setup w) (he : ActionEnds env setup w action)
    (h : actionStep env setup w action=some next) : StringStore setup next := by
  have hrun := run_moves h
  have hmeets : Meets (moveStep env setup) (MoveEnds env) w (action.moves env w) →
      StringStore setup next := fun hm =>
    run_invariant (fun _ _ _ hu hc hstep => stringStore_move hcb hu hc hstep) hw hm hrun
  cases action with
  | device op =>
    cases op with
    | json stack settings alwaysMarkChanged =>
      refine stringStore_gives hcb hw ?_ hrun
      cases settings with
      | none => exact fun _ hm => absurd hm List.not_mem_nil
      | some settings => exact jsonMoves_gives hw.regs
    | store op => exact hmeets he
    | binary respBufferLen writeResponse respBuffer buffer len => exact hmeets he
    | reboot => exact hmeets he
  | shell stack command =>
    cases command with
    | set name value =>
      exact stringStore_gives hcb hw (textMoves_gives (fun _ _ => .inl rfl) hw.regs name) hrun
    | setDefault name value =>
      exact stringStore_gives hcb hw (textMoves_gives (fun _ _ => .inr rfl) hw.regs name) hrun
    | restore | restoreOne | clearChanged | clearChangedOne => exact hmeets he
  | load => exact hmeets he

/-- A step whose writes leave terminators keeps all strings terminated. -/
theorem stringStore_step (hcb : Keeping setup env.callbacks) {step : Pointed Action}
    (hw : StringStore setup w) (he : StepEnds env setup w step)
    (h : pointedStep env (actionStep env setup) w step=some next) : StringStore setup next := by
  cases step with
  | op action => exact stringStore_action hcb hw he h
  | setFrom target p len =>
    obtain ⟨result,hok,rfl⟩ := Option.map_eq_some_iff.mp h
    obtain ⟨_,s,hs,hr⟩ := withSetting_ok (toOption_eq_some.mp hok)
    rw [hr]
    exact stringStore_set hcb hw (getByKey_of_find hs) (he s hs)

/-- A command that writes a setting asks for what its call asks for. -/
theorem meets_callById {id : UInt16} {call : SettingCall}
    (h : ∀ s,w.find (.id id)=some s → s.type=.str → CallEnds env s call) :
    Meets (moveStep env setup) (MoveEnds env) w (callById w id call) := by
  unfold callById
  split
  · exact ⟨h,fun _ _ => trivial⟩
  · trivial

/-- A terminator in a buffer lies at an index below its size. -/
theorem index_of_mem {size : ℕ} {buffer : Buffer size} (h : (0 : UInt8)∈buffer.bytes) :
    ∃ i<size,buffer.mem i=0 := by
  obtain ⟨i,hi,he⟩ := List.mem_iff_getElem.mp h
  refine ⟨i,buffer.length_eq ▸ hi,?_⟩
  unfold Buffer.mem memOf
  rw [List.getD_eq_getElem?_getD,List.getElem?_eq_getElem hi,he]
  rfl

/-- A half of a string setting is printed. -/
theorem printHalf_ok {size : ℕ} {isSet : Bool} {data : Buffer size} (len : ℕ)
    (h : isSet=true → (0 : UInt8)∈data.bytes) :
    ∃ text,printHalf .str isSet data len=.ok text := by
  unfold printHalf
  split
  · rename_i hset
    unfold printData cstringAt?
    dsimp only
    rw [if_pos (h hset)]
    exact ⟨_,rfl⟩
  · exact ⟨_,rfl⟩

/-- Terminated strings are read safely. -/
theorem stringSafe_of_ok (hstr : s.type=.str) (h : StringOk s) : StringSafe s := by
  refine ⟨fun hset => index_of_mem (h.value hstr hset),
    fun hset => index_of_mem (h.default hstr hset),?_,?_⟩
  · intro hset stack
    refine jsonFromSetting_ok.mpr ⟨fun ht => h.value ht hset,fun hbytes => ?_⟩
    rw [hstr] at hbytes
    cases hbytes
  · obtain ⟨value,hvalue⟩ := printHalf_ok s.dataLen (h.value hstr)
    obtain ⟨default,hdefault⟩ := printHalf_ok s.defaultDataLen (h.default hstr)
    unfold prvShellPrintSetting
    rw [hstr,hvalue,hdefault]
    exact ⟨_,rfl⟩

/-- For every device whose full entries of string settings are terminated at
first and whose callbacks give texts to string settings, storage failing at
any call: after every run of calls (also with pointers to memory that changes),
imports of JSON, commands of the binary protocol and of the shell, repeated
loads and reboots in which every SET, SET DEFAULT, restore, call and load leaves
a terminator (imports and texts given to the shell always do), all string
settings are terminated and are read safely. -/
theorem strings_terminated (env : Env) (setup : Setup) (nvs : Entries)
    (hstored : StoredEnds setup nvs) (hreact : ∀ n,EachAll (GivesText setup) (env.react n))
    (start final : World) (steps : List (Pointed Action)) (hboot : boot env setup nvs=.ok start)
    (hends : Meets (pointedStep env (actionStep env setup)) (StepEnds env setup) start steps)
    (hrun : run (pointedStep env (actionStep env setup)) start steps=some final) :
    ∀ s∈final.list.items,s.type=.str → StringSafe s := by
  have hstart : StringStore setup start :=
    stringStore_booted (w:=World.unstarted nvs) hstored (reboot_ok hboot)
  have hfinal : StringStore setup final :=
    run_invariant (fun _ _ _ hw hc hstep =>
      stringStore_step (callbacks_keeping hreact) hw hc hstep) hstart hends hrun
  exact fun s hs hstr => stringSafe_of_ok hstr (hfinal.records s hs)

/-- A device with a string setting of four bytes. -/
def stringDevice : Setup := device .str 4 none none

/-- SET and SET DEFAULT with terminators, an import, a text given to the shell,
a set call with a pointer and a reboot. -/
theorem strings_terminated_on_device :
    let steps : List (Pointed Action) := [
      .op (.device (.binary 64 (fun _ _ => 0) (fun _ => 0) (memOf [5,1,0,3,97,98,0]) 7)),
      .op (.device (.binary 64 (fun _ _ => 0) (fun _ => 0) (memOf [6,1,0,2,99,0]) 6)),
      .op (.device (.json (fun _ => 255) (some (.createObject [.mk .string (some keyA) 0 0
        (some keyA) []])) false)),
      .op (.shell (fun _ => 255) (.set keyA keyA)),
      .setFrom (.key keyA) (fun _ => memOf [98,0]) 2,
      .op (.device .reboot)]
    ∃ start final,boot calm stringDevice ∅=.ok start ∧
      run (pointedStep calm (actionStep calm stringDevice)) start steps=some final ∧
      ∀ s∈final.list.items,s.type=.str → StringSafe s := by
  intro steps
  have hdevice : ∃ start final,boot calm stringDevice ∅=.ok start ∧
      run (pointedStep calm (actionStep calm stringDevice)) start steps=some final :=
    ⟨_,_,rfl,rfl⟩
  obtain ⟨start,final,hboot,hrun⟩ := hdevice
  have hstored : StoredEnds stringDevice ∅ := by
    intro r _ _ subtree _ entry hlook
    cases hlook
  have hends : Meets (pointedStep calm (actionStep calm stringDevice)) (StepEnds calm stringDevice)
      start steps := by
    refine ⟨?_,fun _ _ => ⟨?_,fun _ _ => ⟨trivial,fun _ _ => ⟨trivial,fun _ _ => ⟨?_,fun _ _ =>
      ⟨⟨trivial,fun _ _ => trivial⟩,fun _ _ => trivial⟩⟩⟩⟩⟩⟩
    · exact meets_callById fun _ _ _ _ _ => .inl (by decide)
    · exact meets_callById fun _ _ _ _ _ => .inl (by decide)
    · exact fun _ _ _ => pointerEnds_of_ends fun _ _ => .inl (by decide)
  exact ⟨start,final,hboot,hrun,strings_terminated calm stringDevice ∅ hstored
    (fun _ => trivial) start final steps hboot hends hrun⟩

/-- What reaches string settings through the protocol, imports, the shell and
restores. -/
def InMix : Action → Prop
  | .device (.binary _ _ _ _ _) | .device (.json _ _ _) | .device (.store .restoreDefaults)
  | .device (.store (.restoreDefault _)) | .shell _ (.set _ _) | .shell _ .restore
  | .shell _ (.restoreOne _) => True
  | _ => False

/-- A SET command fills the buffer of a string setting without a terminator. -/
theorem string_unterminated :
    ¬∀ (env : Env) (setup : Setup) (start final : World) (actions : List Action),
      (∀ n,env.react n=[]) → boot env setup ∅=.ok start → (∀ action∈actions,InMix action) →
      run (actionStep env setup) start actions=some final →
      ∀ s∈final.list.items,s.type=.str → s.isSet=true → ∃ i<s.maxSize,s.data.mem i=0 := by
  intro h
  let actions : List Action :=
    [.device (.binary 64 (fun _ _ => 0) (fun _ => 0) (memOf [5,1,0,4,97,98,99,100]) 8)]
  have hdevice : ∃ start final s,boot calm stringDevice ∅=.ok start ∧
      run (actionStep calm stringDevice) start actions=some final ∧ s∈final.list.items ∧
      s.type=.str ∧ s.isSet=true ∧ s.maxSize=4 ∧ s.data.mem=memOf [97,98,99,100] :=
    ⟨_,_,_,rfl,rfl,List.mem_cons_self,rfl,rfl,rfl,rfl⟩
  obtain ⟨start,final,s,hboot,hrun,hs,hstr,hset,hsize,hmem⟩ := hdevice
  obtain ⟨i,hi,hzero⟩ := h calm stringDevice start final actions (fun _ => rfl) hboot
    (List.forall_mem_singleton.mpr trivial) hrun s hs hstr hset
  rw [hsize] at hi
  rw [hmem] at hzero
  have hfull : ∀ i<4,memOf [97,98,99,100] i≠0 := by decide
  exact hfull i hi hzero

end UserSettings.Strings
