import UserSettings.Device
import UserSettings.Shell

/-!
# What readers depend on

Every reader is shown to look at the buffers of a setting only where its view
decides what is there: integers of full width, strings up to a terminator
that is part of the value, and otherwise the bytes in use. Two devices whose
settings are seen alike then look the same to every reader, unless an export
prints no bytes and takes what is in its array for their digits.
-/

namespace UserSettings.Readers

open Bytes Values HexLoops Settings Storage Store Effects Load Records Cells Operations Transition
open Binary Json Shell Device

/-- The integer that the application reads through the pointer of a getter. -/
def typedGet (w : World) (target : Target) : Except Fault (Option ℤ) :=
  withSetting w target fun s => (prvTypeToSize s.type).bind fun size =>
    (prvUserSettingGet s).map fun p => readAs s.type size p.1

/-- A half in use that readers can rely on: an integer has its full width, and
a string contains its terminator. -/
structure Whole (type : UserSettingType) (size : ℕ) (bytes : List UInt8) : Prop where
  /-- All bytes of an integer are in use. -/
  integer : ∀ width,prvTypeToSize type=some width → bytes.length=size
  /-- The terminator of a string is in use. -/
  string : type=.str → (0 : UInt8)∈bytes

/-- The value and the default value of a record are whole when they are set. -/
structure RecordWhole (s : UserSetting) : Prop where
  /-- The value. -/
  value : s.isSet=true → Whole s.type s.maxSize s.value
  /-- The default value. -/
  default : s.defaultIsSet=true → Whole s.type s.maxSize s.defaultValue

/-- The digits of a bytes setting have an end that is printed, or the arrays they
are printed to start alike. -/
def Printed (stack stack' : Mem) (s : UserSetting) : Prop :=
  s.type=.bytes → s.isSet=true ∨ stack 0=stack' 0

/-- The same setting, seen alike. -/
structure Alike (s t : UserSetting) : Prop where
  /-- What was registered is the same. -/
  registration : registration s=registration t
  /-- What can be seen is the same. -/
  view : view s=view t

/-- All readers return the same on two devices, whose exports find some memory
in the arrays they print to. -/
structure SameReadings (stack stack' : Mem) (w v : World) : Prop where
  /-- The integers behind the getters. -/
  typed : ∀ target,typedGet w target=typedGet v target
  /-- The JSON of all settings. -/
  allJson : userSettingsGetAllJson stack w=userSettingsGetAllJson stack' v
  /-- The JSON of the changed settings. -/
  changedJson : userSettingsGetChangedJson stack w=userSettingsGetChangedJson stack' v
  /-- The text in the shell. -/
  shell : ∀ target,(w.find target).map prvShellPrintSetting=
    (v.find target).map prvShellPrintSetting
  /-- The short form of the binary protocol. -/
  encode : ∀ target buffer len,
    (w.find target).map (fun s => userSettingsProtocolBinaryEncode s buffer len)=
      (v.find target).map fun s => userSettingsProtocolBinaryEncode s buffer len
  /-- The full form of the binary protocol. -/
  encodeFull : ∀ target buffer len,
    (w.find target).map (fun s => userSettingsProtocolBinaryEncodeFull s buffer len)=
      (v.find target).map fun s => userSettingsProtocolBinaryEncodeFull s buffer len

/-- Two halves in shape that are seen alike. -/
structure HalfPair {size other : ℕ} (data : Buffer size) (data' : Buffer other) (len : ℕ)
    (isSet : Bool) : Prop where
  /-- The first half is in shape. -/
  first : HalfOk data len isSet
  /-- The second half is in shape. -/
  second : HalfOk data' len isSet
  /-- They have the same space. -/
  size : size=other
  /-- They have the same bytes in use. -/
  bytes : data.bytes.take len=data'.bytes.take len

section Halves

variable {size other len : ℕ} {data : Buffer size} {data' : Buffer other} {isSet : Bool}
  {type : UserSettingType}

/-- The bytes in use are the same. -/
theorem HalfPair.bytesAt_eq (h : HalfPair data data' len isSet) :
    bytesAt data.mem len=bytesAt data'.mem len := by
  rw [Buffer.bytesAt_mem _ h.first.len_le,Buffer.bytesAt_mem _ h.second.len_le,h.bytes]

/-- Whole halves of integers have the same memory. -/
theorem HalfPair.mem_eq (h : HalfPair data data' len isSet)
    (hw : isSet=true → Whole type size (data.bytes.take len)) {width : ℕ}
    (ht : prvTypeToSize type=some width) : data.mem=data'.mem := by
  obtain ⟨h,k,rfl,hb⟩ := h
  cases isSet with
  | false => rw [h.unset rfl,k.unset rfl]
  | true =>
    have hlen := (hw rfl).integer width ht
    rw [List.length_take,data.length_eq] at hlen
    have hfull : size ≤ len := by omega
    have hbytes : data.bytes=data'.bytes := by
      rwa [List.take_of_length_le (by rw [data.length_eq]; exact hfull),
        List.take_of_length_le (by rw [data'.length_eq]; exact hfull)] at hb
    unfold Buffer.mem
    rw [hbytes]

/-- Whole halves of strings hold the same string. -/
theorem HalfPair.cstringAt?_eq (h : HalfPair data data' len isSet)
    (hw : isSet=true → Whole type size (data.bytes.take len)) (ht : type=.str) :
    cstringAt? data.bytes=cstringAt? data'.bytes := by
  obtain ⟨h,k,rfl,hb⟩ := h
  cases isSet with
  | false => rw [h.unset rfl,k.unset rfl]
  | true =>
    have hnul := (hw rfl).string ht
    have hnul' : (0 : UInt8)∈data'.bytes.take len := hb ▸ hnul
    rw [←List.take_append_drop len data.bytes,←List.take_append_drop len data'.bytes,
      cstringAt?_append hnul,cstringAt?_append hnul',hb]

/-- The shell prints whole halves alike. -/
theorem HalfPair.printHalf_eq (h : HalfPair data data' len isSet)
    (hw : isSet=true → Whole type size (data.bytes.take len)) :
    printHalf type isSet data len=printHalf type isSet data' len := by
  unfold printHalf printData
  cases ht : type with
  | str => rw [h.cstringAt?_eq hw ht]
  | bytes => rw [h.bytesAt_eq]
  | _ =>
    have hmem := h.mem_eq hw (by rw [ht]; rfl)
    simp only [hmem]

/-- The encoders write halves alike. -/
theorem HalfPair.halfBytes_eq (h : HalfPair data data' len isSet) :
    halfBytes isSet data.mem len=halfBytes isSet data'.mem len := by
  unfold halfBytes
  rw [h.bytesAt_eq]

end Halves

namespace Alike

variable {s t : UserSetting}

/-- The types are the same. -/
theorem type (h : Alike s t) : s.type=t.type := congrArg Registration.type h.registration

/-- The keys are the same. -/
theorem key (h : Alike s t) : s.key=t.key := congrArg Registration.key h.registration

/-- The identifiers are the same. -/
theorem id (h : Alike s t) : s.id=t.id := congrArg Registration.id h.registration

/-- The sizes are the same. -/
theorem maxSize (h : Alike s t) : s.maxSize=t.maxSize :=
  congrArg Registration.size h.registration

/-- Both values are set or neither. -/
theorem isSet (h : Alike s t) : s.isSet=t.isSet := congrArg View.isSet h.view

/-- The values are equally long. -/
theorem dataLen (h : Alike s t) : s.dataLen=t.dataLen := congrArg View.dataLen h.view

/-- Both default values are set or neither. -/
theorem defaultIsSet (h : Alike s t) : s.defaultIsSet=t.defaultIsSet :=
  congrArg View.defaultIsSet h.view

/-- The default values are equally long. -/
theorem defaultDataLen (h : Alike s t) : s.defaultDataLen=t.defaultDataLen :=
  congrArg View.defaultDataLen h.view

/-- The values are a pair of halves. -/
theorem valuePair (h : Alike s t) (hs : RecordOk s) (ht : RecordOk t) :
    HalfPair s.data t.data s.dataLen s.isSet := by
  have hbytes : s.value=t.value := congrArg View.value h.view
  unfold UserSetting.value at hbytes
  rw [←h.dataLen] at hbytes
  have hsecond := ht.value
  rw [←h.dataLen,←h.isSet] at hsecond
  exact ⟨hs.value,hsecond,h.maxSize,hbytes⟩

/-- The default values are a pair of halves. -/
theorem defaultPair (h : Alike s t) (hs : RecordOk s) (ht : RecordOk t) :
    HalfPair s.defaultData t.defaultData s.defaultDataLen s.defaultIsSet := by
  have hbytes : s.defaultValue=t.defaultValue := congrArg View.defaultValue h.view
  unfold UserSetting.defaultValue at hbytes
  rw [←h.defaultDataLen] at hbytes
  have hsecond := ht.default
  rw [←h.defaultDataLen,←h.defaultIsSet] at hsecond
  exact ⟨hs.default,hsecond,h.maxSize,hbytes⟩

/-- The shell prints alike settings alike. -/
theorem shell_eq (h : Alike s t) (hs : RecordOk s) (ht : RecordOk t) (hw : RecordWhole s) :
    prvShellPrintSetting s=prvShellPrintSetting t := by
  unfold prvShellPrintSetting
  rw [(h.valuePair hs ht).printHalf_eq hw.value,(h.defaultPair hs ht).printHalf_eq hw.default,
    h.type,h.isSet,h.dataLen,h.defaultIsSet,h.defaultDataLen,h.id,h.key]

/-- The short form of alike settings is the same. -/
theorem shortBytes_eq (h : Alike s t) (hs : RecordOk s) (ht : RecordOk t) :
    shortBytes s=shortBytes t := by
  unfold shortBytes
  rw [(h.valuePair hs ht).halfBytes_eq,h.type,h.isSet,h.dataLen,h.id,h.key]

/-- The full form of alike settings is the same. -/
theorem fullBytes_eq (h : Alike s t) (hs : RecordOk s) (ht : RecordOk t) :
    fullBytes s=fullBytes t := by
  unfold fullBytes
  rw [h.shortBytes_eq hs ht,(h.defaultPair hs ht).halfBytes_eq,h.defaultIsSet,h.defaultDataLen,
    h.maxSize]

/-- The integer behind the getter is the same. -/
theorem typed_eq (h : Alike s t) (hs : RecordOk s) (ht : RecordOk t) (hw : RecordWhole s) :
    ((prvTypeToSize s.type).bind fun size => (prvUserSettingGet s).map fun p =>
      readAs s.type size p.1)=
    (prvTypeToSize t.type).bind fun size => (prvUserSettingGet t).map fun p =>
      readAs t.type size p.1 := by
  cases hsize : prvTypeToSize s.type with
  | none =>
    rw [←h.type,hsize]
    rfl
  | some size =>
    have hmem := (h.valuePair hs ht).mem_eq hw.value hsize
    have hdefault := (h.defaultPair hs ht).mem_eq hw.default hsize
    rw [←h.type,hsize]
    unfold prvUserSettingGet
    rw [←h.isSet,←h.defaultIsSet,hmem,hdefault,h.dataLen,h.defaultDataLen]

/-- The exported JSON value is the same. -/
theorem json_eq {stack stack' : Mem} (h : Alike s t) (hs : RecordOk s) (ht : RecordOk t)
    (hw : RecordWhole s) (hprinted : Printed stack stack' s) :
    prvJsonFromSetting stack s=prvJsonFromSetting stack' t := by
  have hpair := h.valuePair hs ht
  unfold prvJsonFromSetting
  rw [←h.type,←h.dataLen]
  cases hty : s.type with
  | str =>
    dsimp only
    unfold CJson.createString
    rw [hpair.cstringAt?_eq hw.value hty]
  | bytes =>
    dsimp only
    have hend : (if s.dataLen=0 then stack 0 else 0)=if s.dataLen=0 then stack' 0 else 0 := by
      rcases hprinted hty with hset|hsame
      · have hpos := (hs.value.isSet_iff.mp hset).ne'
        rw [if_neg hpos,if_neg hpos]
      · rw [hsame]
    rw [bytesAt_sprintfLoop,bytesAt_sprintfLoop,hpair.bytesAt_eq,hend]
  | _ =>
    have hmem := hpair.mem_eq hw.value (by rw [hty]; rfl)
    simp only [hmem]

end Alike

/-- What was registered for a record, with its view. -/
def seen (s : UserSetting) : Registration×View := (registration s,view s)

/-- Records that are seen the same way are alike. -/
theorem alike_of_seen {s t : UserSetting} (h : seen s=seen t) : Alike s t :=
  ⟨congrArg Prod.fst h,congrArg Prod.snd h⟩

/-- Functions that agree on alike records map lists of records that are seen
the same way to the same list. -/
theorem map_eq_of_seen {β : Type} {f g : UserSetting → β} {items others : List UserSetting}
    (h : items.map seen=others.map seen)
    (hf : ∀ s∈items,∀ t∈others,Alike s t → f s=g t) : items.map f=others.map g := by
  induction items generalizing others with
  | nil =>
    have hnil : others=[] := List.map_eq_nil_iff.mp h.symm
    rw [hnil]
    rfl
  | cons s rest ih =>
    cases others with
    | nil => cases h
    | cons t tail =>
      simp only [List.map_cons,List.cons.injEq] at h ⊢
      refine ⟨hf s List.mem_cons_self t List.mem_cons_self (alike_of_seen h.1),ih h.2 ?_⟩
      exact fun x hx y hy =>
        hf x (List.mem_cons_of_mem s hx) y (List.mem_cons_of_mem t hy)

variable {w v : World} {stack stack' : Mem}

/-- Equal registrations and views give lists that are seen the same way. -/
theorem seen_eq (hr : registrations w=registrations v) (hv : views w=views v) :
    w.list.items.map seen=v.list.items.map seen := by
  apply List.ext_getElem?
  intro i
  have hi : (w.list.items[i]?).map registration=(v.list.items[i]?).map registration := by
    have hat := congrArg (fun regs => regs[i]?) hr
    simpa only [registrations,List.getElem?_map] using hat
  rw [List.getElem?_map,List.getElem?_map]
  cases hs : w.list.items[i]? with
  | none =>
    rw [hs,Option.map_none] at hi
    rw [Option.map_eq_none_iff.mp hi.symm]
  | some s =>
    rw [hs,Option.map_some] at hi
    obtain ⟨t,ht,hsame⟩ := Option.map_eq_some_iff.mp hi.symm
    have hkey : t.key=s.key := congrArg Registration.key hsame
    have hview := congrFun hv s.key
    have hfirst : w.getByKey s.key=some s := getByKey_of_mem (List.mem_of_getElem? hs)
    have hsecond : v.getByKey s.key=some t := hkey ▸ getByKey_of_mem (List.mem_of_getElem? ht)
    unfold views at hview
    rw [hfirst,hsecond,Option.map_some,Option.map_some] at hview
    rw [ht,Option.map_some,Option.map_some]
    unfold seen
    rw [hsame,Option.some.inj hview]

/-- Alike devices, whose records are in shape and whole. -/
structure Comparable (w v : World) : Prop where
  /-- The records are seen the same way. -/
  seen : w.list.items.map seen=v.list.items.map seen
  /-- The records of the first are in shape. -/
  first : AllRecords RecordOk w
  /-- The records of the second are in shape. -/
  second : AllRecords RecordOk v
  /-- The records are whole. -/
  whole : AllRecords RecordWhole w
  /-- Both are loaded or neither. -/
  isLoaded : w.isLoaded=v.isLoaded

namespace Comparable

/-- A record that is found on one device is alike one found on the other. -/
theorem find (h : Comparable w v) (target : Target) :
    (w.find target).map Readers.seen=(v.find target).map Readers.seen := by
  cases target with
  | key key =>
    have hp : ∀ list : SettingsList,(userSettingsListGetByKey list key).map Readers.seen=
        (list.items.map Readers.seen).find? fun x => decide (key=x.1.key) := by
      intro list
      rw [List.find?_map]
      rfl
    exact (hp w.list).trans ((congrArg _ h.seen).trans (hp v.list).symm)
  | id id =>
    have hp : ∀ list : SettingsList,(userSettingsListGetById list id).map Readers.seen=
        (list.items.map Readers.seen).find? fun x => decide (id=x.1.id) := by
      intro list
      rw [List.find?_map]
      rfl
    exact (hp w.list).trans ((congrArg _ h.seen).trans (hp v.list).symm)

/-- A reader of one setting that agrees on alike records agrees on the devices. -/
theorem map_find {β : Type} (h : Comparable w v) {f : UserSetting → β}
    (hf : ∀ s t,RecordOk s → RecordOk t → RecordWhole s → Alike s t → f s=f t)
    (target : Target) : (w.find target).map f=(v.find target).map f := by
  have hfind := h.find target
  cases hs : w.find target with
  | none =>
    rw [hs,Option.map_none] at hfind
    rw [Option.map_eq_none_iff.mp hfind.symm]
  | some s =>
    rw [hs,Option.map_some] at hfind
    obtain ⟨t,ht,hsame⟩ := Option.map_eq_some_iff.mp hfind.symm
    have hfirst := getByKey_of_find hs
    have hsecond := getByKey_of_find ht
    rw [ht,Option.map_some,Option.map_some,hf s t (h.first.getByKey hfirst)
      (h.second.getByKey hsecond) (h.whole.getByKey hfirst) (alike_of_seen hsame.symm)]

/-- Objects of lists of records that are seen the same way are the same. -/
theorem jsonObject_eq (h : Comparable w v) (hprinted : ∀ s∈w.list.items,Printed stack stack' s)
    {p : Registration×View → Bool} : jsonObject stack (w.list.items.filter (p∘Readers.seen))=
      jsonObject stack' (v.list.items.filter (p∘Readers.seen)) := by
  let member (stack : Mem) (s : UserSetting) : Except Fault CJson :=
    (prvJsonFromSetting stack s).map (CJson.named s.key)
  have hseen : (w.list.items.filter (p∘Readers.seen)).map Readers.seen=
      (v.list.items.filter (p∘Readers.seen)).map Readers.seen := by
    rw [←List.filter_map,←List.filter_map,h.seen]
  have hmembers : (w.list.items.filter (p∘Readers.seen)).map (member stack)=
      (v.list.items.filter (p∘Readers.seen)).map (member stack') := by
    refine map_eq_of_seen hseen ?_
    intro s hs t ht ha
    have hmem := (List.mem_filter.mp hs).1
    change (prvJsonFromSetting stack s).map _=(prvJsonFromSetting stack' t).map _
    rw [ha.json_eq (h.first s hmem) (h.second t (List.mem_filter.mp ht).1) (h.whole s hmem)
      (hprinted s hmem),ha.key]
  have hobject : ∀ (stack : Mem) (items : List UserSetting),jsonObject stack items=
      ((items.map (member stack)).mapM id).bind fun members => .ok (.createObject members) := by
    intro stack items
    rw [List.mapM_map]
    rfl
  rw [hobject,hobject,hmembers]

/-- All readers agree on comparable devices. -/
theorem sameReadings (h : Comparable w v) (hprinted : ∀ s∈w.list.items,Printed stack stack' s) :
    SameReadings stack stack' w v := by
  refine ⟨?_,?_,?_,?_,?_,?_⟩
  · intro target
    have hfind := h.map_find (fun s t hs ht hw ha => ha.typed_eq hs ht hw) target
    unfold typedGet withSetting
    rw [h.isLoaded]
    split
    · cases hs : w.find target with
      | none =>
        rw [hs,Option.map_none] at hfind
        rw [Option.map_eq_none_iff.mp hfind.symm]
      | some s =>
        rw [hs,Option.map_some] at hfind
        obtain ⟨t,ht,hsame⟩ := Option.map_eq_some_iff.mp hfind.symm
        rw [ht]
        dsimp only
        rw [hsame]
    · rfl
  · have hall := h.jsonObject_eq hprinted (p:=fun _ => true)
    unfold userSettingsGetAllJson
    simpa only [Function.comp_def,List.filter_true] using hall
  · exact h.jsonObject_eq hprinted (p:=fun x => x.2.hasChangedRecently)
  · exact h.map_find (fun s t hs ht hw ha => ha.shell_eq hs ht hw)
  · intro target buffer len
    refine h.map_find (fun s t hs ht _ ha => ?_) target
    rw [encode_eq,encode_eq,ha.shortBytes_eq hs ht]
  · intro target buffer len
    refine h.map_find (fun s t hs ht _ ha => ?_) target
    rw [encodeFull_eq,encodeFull_eq,ha.fullBytes_eq hs ht]

end Comparable

/-- For any two running stores with the same setup, whatever happened to them
before, and whatever memory the exports find: if they have equal views of all
settings, every value and default value of an integer type has its full width,
every string contains its terminator and every bytes setting is set (or the
memory starts alike), then every reader returns the same on both. -/
theorem readers_depend_on_views (setup : Setup) (w v : World) (hw : Running setup w)
    (hv : Running setup v) (hviews : views w=views v) (hwhole : AllRecords RecordWhole w)
    (stack stack' : Mem) (hprinted : ∀ s∈w.list.items,Printed stack stack' s) :
    SameReadings stack stack' w v := by
  have hregs : registrations w=registrations v := hw.regs.trans hv.regs.symm
  have hloaded : w.isLoaded=v.isLoaded := hw.isLoaded.trans hv.isLoaded.symm
  exact Comparable.sameReadings
    ⟨seen_eq hregs hviews,hw.records,hv.records,hwhole,hloaded⟩ hprinted

/-- Lists of records that are seen the same way show equal views. -/
theorem views_eq_of_seen (h : w.list.items.map seen=v.list.items.map seen) :
    views w=views v := by
  funext key
  have hp : ∀ u : World,views u key=
      ((u.list.items.map seen).find? fun x => decide (key=x.1.key)).map Prod.snd := by
    intro u
    rw [List.find?_map,Option.map_map]
    rfl
  rw [hp,hp,h]

/-- A four-byte setting of a new device that was set twice at full width and
one that was only set to the second value. -/
theorem readers_depend_on_views_on_device : ∃ w v,
    Reachable calm (device .u32 0 none none) ∅ w ∧ Reachable calm (device .u32 0 none none) ∅ v ∧
      SameReadings (memOf [7]) (memOf []) w v := by
  have hw : Reachable calm (device .u32 0 none none) ∅ _ :=
    ⟨_,[.store (.set (.key keyA) (memOf [1,2,3,4]) 4),
      .store (.set (.key keyA) (memOf [9]) 4)],rfl,rfl⟩
  have hv : Reachable calm (device .u32 0 none none) ∅ _ :=
    ⟨_,[.store (.set (.key keyA) (memOf [9]) 4)],rfl,rfl⟩
  refine ⟨_,_,hw,hv,readers_depend_on_views _ _ _ (running_of_reachable hw)
    (running_of_reachable hv) (views_eq_of_seen rfl) ?_ _ _ ?_⟩
  · intro s hs
    rw [List.mem_singleton.mp hs]
    refine ⟨fun _ => ⟨fun _ _ => rfl,fun hstr => ?_⟩,fun hset => ?_⟩
    · cases hstr
    · cases hset
  · intro s hs hbytes
    rw [List.mem_singleton.mp hs] at hbytes
    cases hbytes

/-- Two devices hold the one-byte value 9 in a four-byte setting, but on one of
them it was written over a longer value and reads as another number. -/
theorem shorter_value_read_differently :
    ¬∀ (env : Env) (setup : Setup) (w v : World) (stack : Mem),Reachable env setup ∅ w →
      Reachable env setup ∅ v → views w=views v → SameReadings stack stack w v := by
  intro h
  have hw : Reachable calm (device .u32 0 none none) ∅ _ :=
    ⟨_,[.store (.set (.key keyA) (memOf [1,2,3,4]) 4),
      .store (.set (.key keyA) (memOf [9]) 1)],rfl,rfl⟩
  have hv : Reachable calm (device .u32 0 none none) ∅ _ :=
    ⟨_,[.store (.set (.key keyA) (memOf [9]) 1)],rfl,rfl⟩
  have hsame := (h calm _ _ _ (memOf []) hw hv (views_eq_of_seen rfl)).typed (.key keyA)
  have hread : (Except.ok (some 67305993) : Except Fault (Option ℤ))=.ok (some 9) := hsame
  have hnumber := Option.some.inj (Except.ok.inj hread)
  omega

end UserSettings.Readers
