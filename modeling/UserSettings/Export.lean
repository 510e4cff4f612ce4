import UserSettings.Json
import UserSettings.Transition

/-!
# What an export contains

Every setting but an unterminated string has a JSON value, except that nothing
ends the digits of bytes that are not there. So an export of settings whose
texts are terminated succeeds, with a member for each of them under its key.
-/

namespace UserSettings.Export

open Bytes Values HexLoops Settings Storage Store Transition Json

/-- The text that is made of a setting has an end. -/
structure Terminated (stack : Mem) (s : UserSetting) : Prop where
  /-- A string setting has a terminator in its buffer. -/
  string : s.type=.str → (0 : UInt8)∈s.data.bytes
  /-- Without any bytes the first character of the array is a terminator already. -/
  digits : s.type=.bytes → s.dataLen=0 → stack 0=0

/-- The member of an export for a setting. -/
def IsMember (stack : Mem) (s : UserSetting) (member : CJson) : Prop :=
  ∃ setting,prvJsonFromSetting stack s=.ok setting ∧ member=setting.named s.key

variable {stack : Mem}

/-- A text is read up to its terminator. -/
theorem createString_ok {text : List UInt8} :
    (∃ setting,CJson.createString text=.ok setting) ↔ (0 : UInt8)∈text := by
  unfold CJson.createString cstringAt?
  constructor
  · rintro ⟨setting,h⟩
    by_contra hn
    rw [if_neg hn] at h
    cases h
  · intro h
    rw [if_pos h]
    exact ⟨_,rfl⟩

/-- The printed digits have an end when there are bytes, or by chance. -/
theorem sprintfLoop_ends {data : Mem} {len : ℕ} :
    (0 : UInt8)∈bytesAt (sprintfLoop data len 0 stack) (len*2+1) ↔ (len=0 → stack 0=0) := by
  rw [bytesAt_sprintfLoop,List.mem_append,or_iff_right (hexText_noNul _),List.mem_singleton]
  split
  · rename_i hlen
    exact ⟨fun h _ => h.symm,fun h => (h hlen).symm⟩
  · rename_i hlen
    exact ⟨fun _ hzero => absurd hzero hlen,fun _ => rfl⟩

/-- The string that is made of printed digits that end. -/
theorem createString_digits {data : Mem} {len : ℕ} (h : len=0 → stack 0=0) :
    CJson.createString (bytesAt (sprintfLoop data len 0 stack) (len*2+1))=
      .ok (.mk .string none 0 0
        (some ⟨hexText (bytesAt data len),hexText_noNul (bytesAt data len)⟩) []) := by
  have hlast : (if len=0 then stack 0 else 0)=0 := by
    split
    · exact h ‹_›
    · rfl
  have hread : cstringAt? (hexText (bytesAt data len)++[0])=_ :=
    cstringAt?_withNul ⟨hexText (bytesAt data len),hexText_noNul _⟩
  unfold CJson.createString
  rw [bytesAt_sprintfLoop,hlast,hread]

/-- A setting has a JSON value exactly when its text has an end. -/
theorem jsonFromSetting_ok {s : UserSetting} :
    (∃ setting,prvJsonFromSetting stack s=.ok setting) ↔ Terminated stack s := by
  have hsplit : Terminated stack s ↔ (s.type=.str → (0 : UInt8)∈s.data.bytes) ∧
      (s.type=.bytes → s.dataLen=0 → stack 0=0) :=
    ⟨fun h => ⟨h.string,h.digits⟩,fun h => ⟨h.1,h.2⟩⟩
  rw [hsplit]
  unfold prvJsonFromSetting
  cases s.type with
  | str =>
    rw [createString_ok]
    exact ⟨fun h => ⟨fun _ => h,nofun⟩,fun h => h.1 rfl⟩
  | bytes =>
    rw [createString_ok,sprintfLoop_ends]
    exact ⟨fun h => ⟨nofun,fun _ => h⟩,fun h => h.2 rfl⟩
  | bool | u8 | u16 | u32 | u64 | i8 | i16 | i32 | i64 =>
    exact ⟨fun _ => ⟨nofun,nofun⟩,fun _ => ⟨_,rfl⟩⟩

/-- An export has a member for each setting. -/
theorem jsonObject_ok_iff {settings : List UserSetting} {object : CJson} :
    jsonObject stack settings=.ok object ↔
      ∃ members,List.Forall₂ (IsMember stack) settings members ∧
        object=.createObject members := by
  have hmember : ∀ s member,(prvJsonFromSetting stack s).map (CJson.named s.key)=.ok member ↔
      IsMember stack s member := by
    intro s member
    rw [map_eq_ok]
    exact ⟨fun ⟨j,hj,he⟩ => ⟨j,hj,he.symm⟩,fun ⟨j,hj,he⟩ => ⟨j,hj,he.symm⟩⟩
  unfold jsonObject
  rw [bind_eq_ok]
  constructor
  · rintro ⟨members,hm,h⟩
    exact ⟨members,(mapM_eq_ok.mp hm).imp fun s m => (hmember s m).mp,(Except.ok.inj h).symm⟩
  · rintro ⟨members,hm,rfl⟩
    exact ⟨members,mapM_eq_ok.mpr (hm.imp fun s m => (hmember s m).mpr),rfl⟩

/-- An export of settings whose texts have ends succeeds. -/
theorem jsonObject_ok {settings : List UserSetting} (h : ∀ s∈settings,Terminated stack s) :
    ∃ members,List.Forall₂ (IsMember stack) settings members ∧
      jsonObject stack settings=.ok (.createObject members) := by
  suffices ∃ members,List.Forall₂ (IsMember stack) settings members by
    obtain ⟨members,hm⟩ := this
    exact ⟨members,hm,jsonObject_ok_iff.mpr ⟨members,hm,rfl⟩⟩
  induction settings with
  | nil => exact ⟨[],.nil⟩
  | cons s rest ih =>
    obtain ⟨setting,hs⟩ := jsonFromSetting_ok.mpr (h s List.mem_cons_self)
    obtain ⟨members,hm⟩ := ih fun t ht => h t (List.mem_cons_of_mem s ht)
    exact ⟨setting.named s.key::members,.cons ⟨setting,hs,rfl⟩ hm⟩

/-- The members carry the keys of their settings. -/
theorem member_names {settings : List UserSetting} {members : List CJson}
    (h : List.Forall₂ (IsMember stack) settings members) :
    members.map CJson.string=settings.map fun s => some s.key := by
  induction h with
  | nil => rfl
  | cons hm _ ih =>
    obtain ⟨setting,_,rfl⟩ := hm
    obtain ⟨_,_,_,_,_,_⟩ := setting
    rw [List.map_cons,List.map_cons,ih]
    rfl

end UserSettings.Export
