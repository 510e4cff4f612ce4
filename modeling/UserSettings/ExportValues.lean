import UserSettings.RoundTrip

/-!
# Whether an export shows what the getters return

A getter returns the value of a setting, or its default while no value is set.
An export reads the buffer of the value in any case and passes numbers through
int. The two agree for the values and defaults that both ways lead to the same.
-/

namespace UserSettings.ExportValues

open Bytes Values Settings Storage Store Effects Reactions Records Cells Operations Device Json
open Export Transition RoundTrip

/-- A JSON value denotes what a getter returned for a setting of some type: the
truth value, the integer or the characters at the pointer, or the digits of
the returned bytes. -/
def Denotes (type : UserSettingType) (data : Mem) (len : ℕ) (item : CJson) : Prop :=
  let integer (size : ℕ) : Prop := item.kind=.number ∧ item.valuedouble=readAs type size data
  let text (bytes : List UInt8) : Prop :=
    item.kind=.string ∧ ∃ value,item.valuestring=some value ∧ value.bytes=bytes
  match type with
  | .bool => item.kind=if data 0≠0 then .true else .false
  | .u8 | .i8 => integer 1
  | .u16 | .i16 => integer 2
  | .u32 | .i32 => integer 4
  | .u64 | .i64 => integer 8
  | .str => text ((bytesAt data len).takeWhile (·≠0))
  | .bytes => text (hexText (bytesAt data len))

/-- A member of an export has the key of a setting and denotes what the getter
returns for it, if it returns a value. -/
def Shows (w : World) (s : UserSetting) (item : CJson) : Prop :=
  item.string=some s.key ∧
    ∀ data len,userSettingsGet w (.key s.key)=.ok (some (data,len)) →
      Denotes s.type data len item

/-- The export succeeds, and its members show the values of all settings. -/
def ExportShows (stack : Mem) (w : World) : Prop :=
  ∃ members,userSettingsGetAllJson stack w=.ok (.createObject members) ∧
    List.Forall₂ (Shows w) w.list.items members

/-- An own value survives: an integer lies in the range of int, and a string
ends within its length or directly behind it. -/
def OwnShown (s : UserSetting) : Prop :=
  let inInt (size : ℕ) : Prop :=
    -2^31 ≤ readAs s.type size s.data.mem ∧ readAs s.type size s.data.mem<2^31
  match s.type with
  | .u32 => inInt 4
  | .u64 | .i64 => inInt 8
  | .str => (0 : UInt8)∈s.value ∨ s.data.bytes[s.dataLen]?=some 0
  | .bool | .u8 | .u16 | .i8 | .i16 | .i32 | .bytes => True

/-- A default reads like an empty buffer: as false, zero or the empty string;
bytes never do. -/
def DefaultShown (s : UserSetting) : Prop :=
  let zero (size : ℕ) : Prop := readAs s.type size s.defaultData.mem=0
  match s.type with
  | .bool | .str => s.defaultData.mem 0=0
  | .u8 | .i8 => zero 1
  | .u16 | .i16 => zero 2
  | .u32 | .i32 => zero 4
  | .u64 | .i64 => zero 8
  | .bytes => False

/-- What a getter returns for a setting survives the export: an own value does,
or a default where no value is set. -/
structure Survives (stack : Mem) (s : UserSetting) : Prop where
  /-- The text, if it is one, has an end. -/
  terminated : Terminated stack s
  /-- An own value. -/
  own : s.isSet=true → OwnShown s
  /-- A default in place of a value. -/
  default : s.isSet=false → s.defaultIsSet=true → DefaultShown s

variable {stack : Mem} {w : World} {s : UserSetting} {item : CJson}

/-- The name of a member has no part in what it denotes. -/
theorem denotes_named (type : UserSettingType) (data : Mem) (len : ℕ) (key : CString)
    (item : CJson) : Denotes type data len (item.named key) ↔ Denotes type data len item := by
  cases item
  cases type <;> exact Iff.rfl

/-- A created number denotes an integer when it is the integer. -/
theorem createNumber_denotes (n m : ℤ) :
    ((CJson.createNumber n).kind=.number ∧ (CJson.createNumber n).valuedouble=(m : ℚ)) ↔ n=m := by
  change (CJsonKind.number=.number ∧ (n : ℚ)=(m : ℚ)) ↔ n=m
  rw [Int.cast_inj]
  exact and_iff_right rfl

/-- A created string denotes characters when they are those before its end. -/
theorem createString_denotes {text bytes : List UInt8}
    (h : CJson.createString text=.ok item) :
    (item.kind=.string ∧ ∃ value,item.valuestring=some value ∧ value.bytes=bytes) ↔
      text.takeWhile (·≠0)=bytes := by
  unfold CJson.createString cstringAt? at h
  by_cases hnul : (0 : UInt8)∈text
  · rw [if_pos hnul] at h
    cases h
    constructor
    · rintro ⟨_,value,hvalue,hbytes⟩
      rw [←hbytes,←Option.some.inj hvalue]
    · intro hbytes
      exact ⟨rfl,_,rfl,hbytes⟩
  · rw [if_neg hnul] at h
    cases h

/-- The characters of a part of a text are those of the text when they end in
the part or directly behind it. -/
theorem takeWhile_take_iff {text : List UInt8} (h : (0 : UInt8)∈text) (len : ℕ) :
    text.takeWhile (·≠0)=(text.take len).takeWhile (·≠0) ↔
      (0 : UInt8)∈text.take len ∨ text[len]?=some 0 := by
  induction text generalizing len with
  | nil => cases h
  | cons byte rest ih =>
    cases len with
    | zero =>
      by_cases hb : byte=0
      · simp [hb]
      · simp [hb]
    | succ len =>
      by_cases hb : byte=0
      · simp [hb]
      · have hrest : (0 : UInt8)∈rest := (List.mem_cons.mp h).resolve_left fun he => hb he.symm
        have hne : ¬(0 : UInt8)=byte := fun he => hb he.symm
        have hstep := ih hrest len
        simp only [List.take_succ_cons,List.takeWhile_cons,hb,List.mem_cons,hne,
          List.getElem?_cons_succ,ne_eq,not_false_eq_true,decide_true,if_true,false_or,
          List.cons.injEq,true_and]
        exact hstep

/-- A narrow integer passes through int unchanged. -/
theorem narrow_toInt (type : UserSettingType) (data : Mem) {size : ℕ} (hpos : 0<size)
    (hsize : size ≤ 2 ∨ size=4 ∧ type.isSigned=true) :
    toInt (readAs type size data)=readAs type size data := by
  have hrange := loadInteger_inWidth type.isSigned hpos data
  rw [toInt_eq_iff]
  unfold readAs
  unfold InWidth at hrange
  rcases hsize with hsize|⟨rfl,hsigned⟩
  · have hsizes : size=1 ∨ size=2 := by omega
    rcases hsizes with rfl|rfl
    · split at hrange <;> omega
    · split at hrange <;> omega
  · rw [hsigned] at hrange ⊢
    rw [if_pos rfl] at hrange
    omega

/-- A created number denotes the integer it was made from in int exactly when
the conversion leaves the integer alone. -/
theorem number_denotes (n : ℤ) :
    ((CJson.createNumber (toInt n)).kind=.number ∧
      (CJson.createNumber (toInt n)).valuedouble=(n : ℚ)) ↔ -2^31 ≤ n ∧ n<2^31 := by
  rw [createNumber_denotes,toInt_eq_iff]

/-- What an export makes of an own value denotes it exactly when the value survives. -/
theorem own_denotes (hok : RecordOk s) (hitem : prvJsonFromSetting stack s=.ok item) :
    Denotes s.type s.data.mem s.dataLen item ↔ OwnShown s := by
  have hvalue : bytesAt s.data.mem s.dataLen=s.value := s.data.bytesAt_mem hok.value.len_le
  have hnarrow : ∀ size,0<size → (size ≤ 2 ∨ size=4 ∧ s.type.isSigned=true) →
      (((CJson.createNumber (toInt (readAs s.type size s.data.mem))).kind=.number ∧
        (CJson.createNumber (toInt (readAs s.type size s.data.mem))).valuedouble=
          (readAs s.type size s.data.mem : ℚ)) ↔ True) := by
    intro size hpos hsize
    rw [createNumber_denotes]
    exact iff_true_intro (narrow_toInt s.type s.data.mem hpos hsize)
  unfold prvJsonFromSetting at hitem
  unfold Denotes OwnShown
  cases htype : s.type with
  | bool =>
    rw [htype] at hitem
    cases hitem
    by_cases hb : s.data.mem 0=0 <;> simp [hb,CJson.createBool,CJson.kind]
  | u8 | i8 =>
    have hn := hnarrow 1 (by decide) (.inl (by decide))
    rw [htype] at hitem hn
    cases hitem
    exact hn
  | u16 | i16 =>
    have hn := hnarrow 2 (by decide) (.inl (by decide))
    rw [htype] at hitem hn
    cases hitem
    exact hn
  | i32 =>
    have hn := hnarrow 4 (by decide) (.inr ⟨rfl,by rw [htype]; rfl⟩)
    rw [htype] at hitem hn
    cases hitem
    exact hn
  | u32 | u64 | i64 =>
    rw [htype] at hitem
    cases hitem
    exact number_denotes _
  | str =>
    have hnul := createString_ok.mp (by rw [htype] at hitem; exact ⟨item,hitem⟩)
    rw [htype] at hitem
    refine (createString_denotes hitem).trans ?_
    rw [hvalue]
    exact takeWhile_take_iff hnul s.dataLen
  | bytes =>
    rw [htype] at hitem
    have hend := sprintfLoop_ends.mp (createString_ok.mp ⟨item,hitem⟩)
    cases (createString_digits hend).symm.trans hitem
    exact iff_true_intro ⟨rfl,_,rfl,rfl⟩

/-- The first bytes of an empty buffer are zeros, so its integers are zero. -/
theorem readAs_zero (type : UserSettingType) (size capacity : ℕ) :
    readAs type size (Buffer.zero capacity).mem=0 := by
  have hzero : ∀ count,leNat (List.replicate count 0)=0 := by
    intro count
    induction count with
    | zero => rfl
    | succ count ih =>
      rw [List.replicate_succ,leNat,ih]
      rfl
  have hbytes : bytesAt (Buffer.zero capacity).mem size=List.replicate size 0 := by
    refine List.eq_replicate_iff.mpr ⟨length_bytesAt _ _,?_⟩
    intro byte hbyte
    obtain ⟨i,_,rfl⟩ := List.mem_map.mp hbyte
    exact Buffer.mem_zero capacity i
  unfold readAs loadInteger
  rw [hbytes,hzero]
  cases type.isSigned <;> simp [signed]

/-- The text of some bytes is empty exactly when they start with the terminator. -/
theorem takeWhile_bytesAt_eq_nil {data : Mem} {len : ℕ} (hpos : 0<len) :
    [ ]=(bytesAt data len).takeWhile (·≠0) ↔ data 0=0 := by
  obtain ⟨rest,rfl⟩ : ∃ rest,len=rest+1 := ⟨len-1,by omega⟩
  unfold bytesAt
  rw [List.range_succ_eq_map,List.map_cons,List.takeWhile_cons]
  by_cases hb : data 0=0
  · simp [hb]
  · simp [hb]

/-- What an export makes of a setting without a value denotes its default
exactly when the default reads like an empty buffer. -/
theorem default_denotes (hok : RecordOk s) (hset : s.isSet=false) (hdefault : s.defaultIsSet=true)
    (hitem : prvJsonFromSetting stack s=.ok item) :
    Denotes s.type s.defaultData.mem s.defaultDataLen item ↔ DefaultShown s := by
  have hlen : s.dataLen=0 := hok.value.len_eq_zero hset
  have hdata : s.data=Buffer.zero s.maxSize := hok.value.unset hset
  have hpos : 0<s.defaultDataLen := hok.default.isSet_iff.mp hdefault
  have hnumber : ∀ size (n : ℤ),
      (((CJson.createNumber (toInt (readAs s.type size s.data.mem))).kind=.number ∧
        (CJson.createNumber (toInt (readAs s.type size s.data.mem))).valuedouble=(n : ℚ)) ↔
          n=0) := by
    intro size n
    rw [createNumber_denotes,hdata,readAs_zero]
    exact eq_comm
  unfold prvJsonFromSetting at hitem
  unfold Denotes DefaultShown
  cases htype : s.type with
  | bool =>
    rw [htype] at hitem
    cases hitem
    rw [hdata,Buffer.mem_zero]
    by_cases hb : s.defaultData.mem 0=0 <;> simp [hb,CJson.createBool,CJson.kind]
  | u8 | i8 | u16 | i16 | u32 | i32 | u64 | i64 =>
    rw [htype] at hitem hnumber
    cases hitem
    exact hnumber _ _
  | str =>
    have hnul := createString_ok.mp (by rw [htype] at hitem; exact ⟨item,hitem⟩)
    rw [htype] at hitem
    refine (createString_denotes hitem).trans ?_
    have hempty : s.data.bytes.takeWhile (·≠0)=[] := by
      rw [hdata] at hnul ⊢
      unfold Buffer.zero
      cases s.maxSize <;> simp [List.replicate_succ]
    rw [hempty]
    exact takeWhile_bytesAt_eq_nil hpos
  | bytes =>
    rw [htype] at hitem
    have hend := sprintfLoop_ends.mp (createString_ok.mp ⟨item,hitem⟩)
    cases (createString_digits hend).symm.trans hitem
    refine iff_of_false ?_ not_false
    rintro ⟨_,value,hvalue,hempty⟩
    have hdigits := congrArg List.length hempty
    rw [←Option.some.inj hvalue] at hdigits
    dsimp only at hdigits
    rw [hlen,length_hexText,length_hexText,length_bytesAt,length_bytesAt] at hdigits
    omega

/-- The member of a setting shows what the getter returns exactly when that survives. -/
theorem shows_iff (hl : w.isLoaded=true) (hok : RecordOk s) (hs : s∈w.list.items)
    (hitem : prvJsonFromSetting stack s=.ok item) : Shows w s (item.named s.key) ↔
      (s.isSet=true → OwnShown s) ∧
        (s.isSet=false → s.defaultIsSet=true → DefaultShown s) := by
  have hfind : w.find (.key s.key)=some s := getByKey_of_mem hs
  have hget : userSettingsGet w (.key s.key)=.ok (prvUserSettingGet s) :=
    withSetting_eq hl hfind prvUserSettingGet
  have hname : (item.named s.key).string=some s.key := by
    cases item
    rfl
  unfold Shows
  rw [hget]
  simp only [hname,true_and,denotes_named,Except.ok.injEq]
  unfold prvUserSettingGet
  cases hset : s.isSet with
  | true =>
    rw [if_pos rfl,←own_denotes hok hitem]
    simp
  | false =>
    rw [if_neg Bool.false_ne_true]
    cases hdefault : s.defaultIsSet with
    | true =>
      rw [if_pos rfl,←default_denotes hok hset hdefault hitem]
      simp
    | false => simp

/-- The members of an export show all values exactly when all survive. -/
theorem members_show_iff {settings : List UserSetting} {members : List CJson}
    (hmembers : List.Forall₂ (IsMember stack) settings members)
    (h : ∀ s∈settings,∀ member,IsMember stack s member →
      (Shows w s member ↔ Survives stack s)) :
    List.Forall₂ (Shows w) settings members ↔ ∀ s∈settings,Survives stack s := by
  induction hmembers with
  | nil => simp
  | cons hmember _ ih =>
    have hrest := ih fun t ht => h t (List.mem_cons_of_mem _ ht)
    rw [List.forall₂_cons,List.forall_mem_cons,hrest,h _ List.mem_cons_self _ hmember]

variable {setup : Setup}

/-- For every running store and for whatever memory an export finds, the export
shows the value the getter returns for every setting if and only if these values
survive: every string has an end, within its length or directly behind it, own
integers lie in the range of int, a default that stands in for a value reads as
false, zero or empty, and where a bytes setting has no value the memory starts
with the end of a text. -/
theorem export_shows_iff (hw : Running setup w) (stack : Mem) :
    ExportShows stack w ↔ ∀ s∈w.list.items,Survives stack s := by
  have hshows : ∀ s∈w.list.items,∀ member,IsMember stack s member →
      (Shows w s member ↔ Survives stack s) := by
    rintro s hs _ ⟨item,hitem,rfl⟩
    rw [shows_iff hw.isLoaded (hw.records s hs) hs hitem]
    exact ⟨fun h => ⟨jsonFromSetting_ok.mp ⟨item,hitem⟩,h.1,h.2⟩,fun h => ⟨h.own,h.default⟩⟩
  constructor
  · rintro ⟨members,hexport,hall⟩
    obtain ⟨created,hmembers,he⟩ := jsonObject_ok_iff.mp hexport
    cases he
    exact (members_show_iff hmembers hshows).mp hall
  · intro hall
    obtain ⟨members,hmembers,hexport⟩ := jsonObject_ok fun s hs => (hall s hs).terminated
    exact ⟨members,hexport,(members_show_iff hmembers hshows).mpr hall⟩

/-- The export of a device whose setting has a value and a default. -/
theorem export_shows_on_device : ∃ w,Reachable calm (device .i64 0 none none) ∅ w ∧
    w.list.items≠[] ∧
      (ExportShows (memOf [7]) w ↔ ∀ s∈w.list.items,Survives (memOf [7]) s) := by
  have hreach : Reachable calm (device .i64 0 none none) ∅ _ :=
    ⟨_,[.store (.setDefault (.key keyA) (memOf [3]) 8),.store (.set (.key keyA) (memOf [5]) 8)],
      rfl,rfl⟩
  exact ⟨_,hreach,List.cons_ne_nil _ _,export_shows_iff (running_of_reachable hreach) _⟩

/-- A setting without a value has the default three, and its export is zero. -/
theorem default_exported_as_zero :
    ¬∀ (env : Env) (setup : Setup) (nvs : Entries) (w : World) (stack : Mem),
      Reachable env setup nvs w → ExportShows stack w := by
  intro h
  have hreach : Reachable calm (device .u8 0 none none) ∅ _ :=
    ⟨_,[.store (.setDefault (.key keyA) (memOf [3]) 1)],rfl,rfl⟩
  obtain ⟨members,hexport,hall⟩ := h _ _ _ _ (memOf []) hreach
  cases hexport
  cases hall with
  | cons hmember _ =>
    have hnumber := (hmember.2 _ _ rfl).2
    revert hnumber
    decide +kernel

end UserSettings.ExportValues
