import UserSettings.Records
import Mathlib.Logic.Function.Basic

/-!
# The two copies of every cell

A setting has three cells: its default value, its value and its changed
flag. RAM holds one copy of each, persistent storage the other. Seen this way
the setters are writes to single cells of one copy, and what a start
reads is the stored copy. All other details of records and entries are left
behind here.
-/

namespace UserSettings.Cells

open Bytes Settings Storage Store Effects Load Records

/-- One of the three cells of the setting with a key. -/
abbrev Cell := Subtree×CString

/-- A copy of all cells; an empty cell has no content. -/
abbrev Copy := Cell → Option (List UInt8)

/-- The content of the cell of a set changed flag. -/
def flagContent (flag : Bool) : Option (List UInt8) := if flag then some [1] else none

/-- The content of a cell in a record. -/
def content (s : UserSetting) : Subtree → Option (List UInt8)
  | .default => if s.defaultIsSet then some s.defaultValue else none
  | .value => if s.isSet then some s.value else none
  | .changed => flagContent s.hasChangedRecently

/-- What a start makes of the entry of a cell. -/
def decode (subtree : Subtree) (size : ℕ) : Option (List UInt8) → Option (List UInt8)
  | none => none
  | some entry =>
    match subtree with
    | .default | .value => if size<entry.length ∨ entry=[] then none else some entry
    | .changed =>
      match entry with
      | [] => none
      | byte::_ => flagContent (byte≠0)

/-- The copy in RAM. -/
def ram (w : World) : Copy := fun cell =>
  match w.getByKey cell.2 with
  | none => none
  | some s => content s cell.1

/-- The copy in persistent storage, as a start reads it. -/
def stored (w : World) : Copy := fun cell =>
  match w.getByKey cell.2 with
  | none => none
  | some s => decode cell.1 s.maxSize (w.nvs.lookup (keyWithPrefix cell.1 cell.2))

/-- What can be seen of a setting: both halves and the changed flag. -/
structure View where
  /-- Whether a value is set. -/
  isSet : Bool
  /-- The bytes of the value in use. -/
  value : List UInt8
  /-- The length of the value in use. -/
  dataLen : ℕ
  /-- Whether there is a default value. -/
  defaultIsSet : Bool
  /-- The bytes of the default value in use. -/
  defaultValue : List UInt8
  /-- The length of the default value in use. -/
  defaultDataLen : ℕ
  /-- The changed flag. -/
  hasChangedRecently : Bool
  deriving DecidableEq

/-- The view of a record. -/
def view (s : UserSetting) : View :=
  ⟨s.isSet,s.value,s.dataLen,s.defaultIsSet,s.defaultValue,s.defaultDataLen,
    s.hasChangedRecently⟩

/-- A value in use has the length in use. -/
theorem length_value {s : UserSetting} (h : RecordOk s) : s.value.length=s.dataLen := by
  have hl := h.value.len_le
  have hb := s.data.length_eq
  unfold UserSetting.value
  rw [List.length_take]
  omega

/-- A default value in use has the length in use. -/
theorem length_defaultValue {s : UserSetting} (h : RecordOk s) :
    s.defaultValue.length=s.defaultDataLen := by
  have hl := h.default.len_le
  have hb := s.defaultData.length_eq
  unfold UserSetting.defaultValue
  rw [List.length_take]
  omega

/-- Records with equal cells are seen alike. -/
theorem view_eq_of_content {s t : UserSetting} (hs : RecordOk s) (ht : RecordOk t)
    (h : ∀ subtree,content s subtree=content t subtree) : view s=view t := by
  have hhalf : ∀ {a b : Bool} {x y : List UInt8} {m n : ℕ},(a=false → x=[]) →
      (b=false → y=[]) → x.length=m → y.length=n →
      (if a then some x else none)=(if b then some y else none) → a=b ∧ x=y ∧ m=n := by
    intro a b x y m n hx hy hm hn he
    cases a with
    | false =>
      cases b with
      | false =>
        have hxe := hx rfl
        have hye := hy rfl
        subst hxe hye
        exact ⟨rfl,rfl,hm.symm.trans hn⟩
      | true => cases he
    | true =>
      cases b with
      | false => cases he
      | true =>
        have hxy : x=y := Option.some.inj he
        subst hxy
        exact ⟨rfl,rfl,hm.symm.trans hn⟩
  have hnil : ∀ {u : UserSetting},RecordOk u → u.isSet=false → u.value=[] := by
    intro u hu hi
    rw [←List.length_eq_zero_iff,length_value hu,hu.value.len_eq_zero hi]
  have hdnil : ∀ {u : UserSetting},RecordOk u → u.defaultIsSet=false → u.defaultValue=[] := by
    intro u hu hi
    rw [←List.length_eq_zero_iff,length_defaultValue hu,hu.default.len_eq_zero hi]
  obtain ⟨h1,h2,h3⟩ := hhalf (hnil hs) (hnil ht) (length_value hs) (length_value ht) (h .value)
  obtain ⟨h4,h5,h6⟩ := hhalf (hdnil hs) (hdnil ht) (length_defaultValue hs)
    (length_defaultValue ht) (h .default)
  have h7 : s.hasChangedRecently=t.hasChangedRecently := by
    have hf := h .changed
    unfold content flagContent at hf
    cases ha : s.hasChangedRecently <;> cases hb : t.hasChangedRecently <;> simp_all
  unfold view
  rw [h1,h2,h3,h4,h5,h6,h7]

/-- A cell of the record under a key. -/
theorem ram_eq {w : World} {key : CString} {s : UserSetting} (hs : w.getByKey key=some s)
    (subtree : Subtree) : ram w (subtree,key)=content s subtree := by
  unfold ram
  rw [hs]

/-- The stored cell of the record under a key. -/
theorem stored_eq {w : World} {key : CString} {s : UserSetting} (hs : w.getByKey key=some s)
    (subtree : Subtree) : stored w (subtree,key)=
      decode subtree s.maxSize (w.nvs.lookup (keyWithPrefix subtree key)) := by
  unfold stored
  rw [hs]

/-- A change of a record that writes one of its cells writes this cell of RAM. -/
theorem ram_modify {w : World} {key : CString} {s : UserSetting} {u : Update}
    (hs : w.getByKey key=some s) {subtree : Subtree} {c : Option (List UInt8)}
    (hu : ∀ other,content (u.apply s) other=if other=subtree then c else content s other) :
    ram (w.modify key u)=Function.update (ram w) (subtree,key) c := by
  funext cell
  obtain ⟨other,k⟩ := cell
  by_cases hk : k=key
  · subst hk
    rw [ram_eq (modify_self u hs),hu]
    by_cases ho : other=subtree
    · rw [if_pos ho,ho,Function.update_self]
    · rw [if_neg ho,Function.update_of_ne (fun h => ho (Prod.mk.inj h).1),ram_eq hs]
  · rw [Function.update_of_ne (fun h => hk (Prod.mk.inj h).2)]
    unfold ram
    rw [modify_ne u hk]

/-- Writing a value to RAM. -/
theorem ram_storeValue {w : World} {key : CString} {s : UserSetting}
    (hs : w.getByKey key=some s) {bytes : List UInt8} (hf : bytes.length ≤ s.maxSize) :
    ram (w.modify key (storeValue bytes))=Function.update (ram w) (.value,key) (some bytes) := by
  refine ram_modify hs ?_
  intro other
  have hv : ((storeValue bytes).apply s).value=bytes := Buffer.take_write hf
  cases other with
  | default => rfl
  | value => exact congrArg some hv
  | changed => rfl

/-- Writing a default value to RAM. -/
theorem ram_storeDefault {w : World} {key : CString} {s : UserSetting}
    (hs : w.getByKey key=some s) {bytes : List UInt8} (hf : bytes.length ≤ s.maxSize) :
    ram (w.modify key (storeDefault bytes))=
      Function.update (ram w) (.default,key) (some bytes) := by
  refine ram_modify hs ?_
  intro other
  have hv : ((storeDefault bytes).apply s).defaultValue=bytes := Buffer.take_write hf
  cases other with
  | default => exact congrArg some hv
  | value => rfl
  | changed => rfl

/-- Writing a flag to RAM. -/
theorem ram_storeFlag {w : World} {key : CString} {s : UserSetting}
    (hs : w.getByKey key=some s) (flag : Bool) :
    ram (w.modify key (storeFlag flag))=
      Function.update (ram w) (.changed,key) (flagContent flag) := by
  refine ram_modify hs ?_
  intro other
  cases other <;> rfl

/-- Storing does not touch RAM. -/
theorem ram_saveOne (env : Env) (w : World) (name : CString) (data : Mem) (len : ℕ) :
    ram (settingsSaveOne env w name data len).1=ram w := by
  funext cell
  unfold ram
  rw [saveOne_getByKey]

/-- A change of records that keeps registrations does not touch storage. -/
theorem stored_of_registrations {w next : World} (h : registrations next=registrations w)
    (hn : next.nvs=w.nvs) : stored next=stored w := by
  funext cell
  have hf := find_registrations next cell.2
  rw [h,←find_registrations] at hf
  unfold stored
  rw [hn]
  cases hw : w.getByKey cell.2 with
  | none =>
    rw [hw,Option.map_none,Option.map_eq_none_iff] at hf
    rw [hf]
  | some s =>
    rw [hw,Option.map_some] at hf
    obtain ⟨t,ht,hr⟩ := Option.map_eq_some_iff.mp hf
    have hm : t.maxSize=s.maxSize := congrArg Registration.size hr
    rw [ht]
    dsimp only
    rw [hm]

/-- A successful call writes one stored cell, a failed one none. -/
theorem stored_saveOne (env : Env) {w : World} {key : CString} {s : UserSetting}
    (hs : w.getByKey key=some s) (subtree : Subtree) (data : Mem) (len : ℕ) :
    stored (settingsSaveOne env w (keyWithPrefix subtree key) data len).1=
      if env.saveResult w.saves=0 then Function.update (stored w) (subtree,key)
        (decode subtree s.maxSize (if len=0 then none else some (bytesAt data len)))
      else stored w := by
  have hsame := sameSetup_saveOne env w (keyWithPrefix subtree key) data len
  by_cases hr : env.saveResult w.saves=0
  · rw [if_pos hr]
    funext cell
    obtain ⟨other,k⟩ := cell
    by_cases hc : (other,k)=(subtree,key)
    · cases hc
      rw [Function.update_self,stored_eq ((saveOne_getByKey ..).trans hs),saveOne_lookup,
        if_pos ⟨rfl,hr⟩]
    · have hname : keyWithPrefix other k≠keyWithPrefix subtree key := by
        intro h
        obtain ⟨ho,hk⟩ := keyWithPrefix_inj.mp h
        exact hc (by rw [ho,hk])
      rw [Function.update_of_ne hc]
      unfold stored
      dsimp only
      rw [saveOne_getByKey,saveOne_lookup,if_neg (fun h => hname h.1)]
  · rw [if_neg hr]
    refine stored_of_registrations hsame.regs ?_
    unfold settingsSaveOne
    dsimp only
    rw [if_neg hr]

/-- Loading keeps what was registered. -/
theorem registration_loadFrom (subtree : Subtree) (entries : List (Σ _ : CString,List UInt8))
    (s : UserSetting) : registration (loadFrom subtree entries s)=registration s := by
  unfold loadFrom
  split
  · rfl
  · exact plain_loadUpdate _ _ s

/-- A full load keeps what was registered. -/
theorem registration_loadRecord (nvs : Entries) (s : UserSetting) :
    registration (loadRecord nvs s)=registration s := by
  unfold loadRecord
  rw [registration_loadFrom,registration_loadFrom,registration_loadFrom]

/-- Loading an entry of one subtree does not touch the other cells. -/
theorem content_loadUpdate_ne {subtree other : Subtree} (h : other≠subtree)
    (entry : List UInt8) (s : UserSetting) :
    content ((loadUpdate subtree entry).apply s) other=content s other := by
  refine loadUpdate_keeps (P:=fun t => content t other=content s other) ?_ ?_ ?_ rfl
  · rintro rfl _ _
    cases other with
    | value => exact absurd rfl h
    | default | changed => rfl
  · rintro rfl _ _
    cases other with
    | default => exact absurd rfl h
    | value | changed => rfl
  · rintro rfl _
    cases other with
    | changed => exact absurd rfl h
    | default | value => rfl

/-- Loading one subtree does not touch the other cells. -/
theorem content_loadFrom_ne {subtree other : Subtree} (h : other≠subtree)
    (entries : List (Σ _ : CString,List UInt8)) (s : UserSetting) :
    content (loadFrom subtree entries s) other=content s other := by
  unfold loadFrom
  split
  · rfl
  · exact content_loadUpdate_ne h _ s

/-- Loading one subtree into an empty cell fills it with what is stored. -/
theorem content_loadFrom {subtree : Subtree} {s : UserSetting} (h : content s subtree=none)
    (entries : List (Σ _ : CString,List UInt8)) :
    content (loadFrom subtree entries s) subtree=
      decode subtree s.maxSize (entries.dlookup (keyWithPrefix subtree s.key)) := by
  unfold loadFrom
  cases he : entries.dlookup (keyWithPrefix subtree s.key) with
  | none => exact h
  | some entry =>
    dsimp only [loadUpdate,decode]
    cases subtree with
    | default =>
      dsimp only
      by_cases hc : s.maxSize<entry.length ∨ entry=[]
      · rw [if_pos hc,if_pos hc]
        exact h
      · have hf : entry.length ≤ s.maxSize := by omega
        rw [if_neg hc,if_neg hc]
        exact congrArg some (Buffer.take_write hf)
    | value =>
      dsimp only
      by_cases hc : s.maxSize<entry.length ∨ entry=[]
      · rw [if_pos hc,if_pos hc]
        exact h
      · have hf : entry.length ≤ s.maxSize := by omega
        rw [if_neg hc,if_neg hc]
        exact congrArg some (Buffer.take_write hf)
    | changed =>
      cases entry with
      | nil => exact h
      | cons byte rest => rfl

/-- A full load of a record with empty cells shows what is stored. -/
theorem content_loadRecord {s : UserSetting} (h : ∀ subtree,content s subtree=none)
    (nvs : Entries) (subtree : Subtree) : content (loadRecord nvs s) subtree=
      decode subtree s.maxSize (nvs.lookup (keyWithPrefix subtree s.key)) := by
  have hsize : ∀ other t,(loadFrom other nvs.entries t).maxSize=t.maxSize :=
    fun other t => congrArg Registration.size (registration_loadFrom other nvs.entries t)
  unfold loadRecord
  cases subtree with
  | default =>
    rw [content_loadFrom_ne (by decide),content_loadFrom_ne (by decide),
      content_loadFrom (h .default)]
    rfl
  | value =>
    rw [content_loadFrom_ne (by decide),content_loadFrom,hsize,loadFrom_key]
    · rfl
    · rw [content_loadFrom_ne (by decide)]
      exact h .value
  | changed =>
    rw [content_loadFrom,hsize,hsize,loadFrom_key,loadFrom_key]
    · rfl
    · rw [content_loadFrom_ne (by decide),content_loadFrom_ne (by decide)]
      exact h .changed

/-- What a setup registers. -/
def registered (setup : Setup) : List Registration :=
  setup.regs.map fun r => registration (record r)

/-- After a start exactly the setup is registered. -/
theorem booted_registrations {setup : Setup} {w next : World} (h : Booted setup w next) :
    registrations next=registered setup := by
  unfold registrations registered
  rw [h.items,List.map_map]
  apply List.map_congr_left
  intro r _
  rw [Function.comp_apply,registration_loadRecord]

/-- After a start RAM holds what is stored. -/
theorem booted_ram {setup : Setup} {w next : World} (h : Booted setup w next) :
    ram next=stored next := by
  funext cell
  obtain ⟨subtree,key⟩ := cell
  cases hn : next.getByKey key with
  | none =>
    unfold ram stored
    rw [hn]
  | some t =>
    have ht := (getByKey_some hn).1
    rw [h.items] at ht
    obtain ⟨r,_,rfl⟩ := List.mem_map.mp ht
    have hregs := registration_loadRecord w.nvs (record r)
    have hkey : (record r).key=key :=
      (congrArg Registration.key hregs).symm.trans (key_of_getByKey hn)
    have hsize : (loadRecord w.nvs (record r)).maxSize=(record r).maxSize :=
      congrArg Registration.size hregs
    rw [ram_eq hn,stored_eq hn,hsize,h.nvs,
      content_loadRecord (fun subtree => by cases subtree <;> rfl),hkey]

/-- A start does not change what is stored. -/
theorem booted_stored {setup : Setup} {w next : World} (h : Booted setup w next)
    (hr : registrations w=registered setup) : stored next=stored w :=
  stored_of_registrations ((booted_registrations h).trans hr.symm) h.nvs

/-- The views of all settings. -/
def views (w : World) (key : CString) : Option View := (w.getByKey key).map view

/-- A start shows every setting as it was if storage agrees with RAM. -/
theorem booted_views {setup : Setup} {w next : World} (h : Booted setup w next)
    (hr : registrations w=registered setup) (hok : AllRecords RecordOk w)
    (hagree : ram w=stored w) : views next=views w := by
  have hregs : registrations next=registrations w := (booted_registrations h).trans hr.symm
  have hram : ram next=ram w :=
    (booted_ram h).trans ((booted_stored h hr).trans hagree.symm)
  funext key
  have hf := find_registrations next key
  rw [hregs,←find_registrations] at hf
  unfold views
  cases hn : next.getByKey key with
  | none =>
    rw [hn,Option.map_none] at hf
    rw [Option.map_eq_none_iff.mp hf.symm]
  | some t =>
    rw [hn,Option.map_some] at hf
    obtain ⟨s,hs,_⟩ := Option.map_eq_some_iff.mp hf.symm
    have hview : view t=view s := by
      refine view_eq_of_content ((booted_recordOk h).getByKey hn) (hok.getByKey hs) ?_
      intro subtree
      rw [←ram_eq hn,←ram_eq hs,hram]
    rw [hs,Option.map_some,Option.map_some,hview]

/-- What holds of a store at every point after its load. -/
structure Running (setup : Setup) (w : World) : Prop where
  /-- The setup is registered. -/
  regs : registrations w=registered setup
  /-- The module is loaded. -/
  isLoaded : w.isLoaded=true
  /-- Every record has its shape. -/
  records : AllRecords RecordOk w

/-- A start leads to a running store. -/
theorem running_of_booted {setup : Setup} {w next : World} (h : Booted setup w next) :
    Running setup next :=
  ⟨booted_registrations h,h.isLoaded,booted_recordOk h⟩

/-- Effects keep a running store running. -/
theorem Running.effects {setup : Setup} {env : Env} {allow : Allowance} {w next : World}
    (h : Running setup w) (he : EffectSeq env allow w next) : Running setup next :=
  ⟨he.sameSetup.regs.trans h.regs,he.sameSetup.isLoaded.trans h.isLoaded,
    he.invariant effect_recordOk h.records⟩

end UserSettings.Cells
