import UserSettings.Load

/-!
# Invariants of single records

Effects change one record at a time, so a property of records that survives
the three writes holds of all records in every later state. The shape of a
record is the first such property: lengths fit, and being set is the same
as having a positive length.
-/

namespace UserSettings.Records

open Bytes Settings Storage Store Effects Load

/-- A property of every listed record. -/
def AllRecords (P : UserSetting → Prop) (w : World) : Prop := ∀ s∈w.list.items,P s

/-- A listed property holds of what a search finds. -/
theorem AllRecords.getByKey {P : UserSetting → Prop} {w : World} (h : AllRecords P w)
    {key : CString} {s : UserSetting} (hs : w.getByKey key=some s) : P s :=
  h s (getByKey_some hs).1

/-- A listed property survives a change of one record that keeps it. -/
theorem AllRecords.modify {P : UserSetting → Prop} {w : World} (h : AllRecords P w)
    {key : CString} {u : Update}
    (hu : ∀ s,w.getByKey key=some s → P s → P (u.apply s)) : AllRecords P (w.modify key u) := by
  intro t ht
  unfold World.modify SettingsList.modify at ht
  obtain ⟨s,hs,rfl⟩ := List.mem_map.mp ht
  split
  · rename_i hk
    exact hu s (hk ▸ getByKey_of_mem hs) (h s hs)
  · exact h s hs

variable {env : Env} {allow : Allowance}

/-- A property of records that survives the three writes survives every effect. -/
theorem effect_records {P : UserSetting → Prop}
    (hvalue : ∀ s data len,P s → 0<len → len ≤ s.maxSize → s.validates data len=true →
      allow.value s data len → P ((storeValue (bytesAt data len)).apply s))
    (hdefault : ∀ s data len,P s → 0<len → len ≤ s.maxSize → s.validates data len=true →
      P ((storeDefault (bytesAt data len)).apply s))
    (hflag : ∀ s flag,P s → P ((storeFlag flag).apply s)) (w next : World)
    (hw : AllRecords P w) (h : Effect env allow w next) : AllRecords P next := by
  cases h with
  | value hs hn hf hv ha =>
    refine hw.modify ?_
    intro t ht hp
    rw [hs] at ht
    cases ht
    exact hvalue _ _ _ hp hn hf hv ha
  | default hs hn hf hv =>
    refine hw.modify ?_
    intro t ht hp
    rw [hs] at ht
    cases ht
    exact hdefault _ _ _ hp hn hf hv
  | flag key flag => exact hw.modify (fun t _ hp => hflag t flag hp)
  | notify => exact hw
  | save =>
    intro t ht
    rw [saveOne_list] at ht
    exact hw t ht
  | saveFlag =>
    intro t ht
    rw [saveOne_list] at ht
    exact hw t ht

/-- One of the two halves of a record: a buffer, the length in use and
whether it is in use. -/
structure HalfOk {size : ℕ} (data : Buffer size) (len : ℕ) (isSet : Bool) : Prop where
  /-- The length in use fits. -/
  len_le : len ≤ size
  /-- In use means a positive length. -/
  isSet_iff : isSet=true ↔ 0<len
  /-- A buffer that is not in use was never written. -/
  unset : isSet=false → data=Buffer.zero size

/-- The shape of a record. -/
structure RecordOk (s : UserSetting) : Prop where
  /-- The value and its length. -/
  value : HalfOk s.data s.dataLen s.isSet
  /-- The default value and its length. -/
  default : HalfOk s.defaultData s.defaultDataLen s.defaultIsSet

/-- A half that is not in use has length zero. -/
theorem HalfOk.len_eq_zero {size len : ℕ} {data : Buffer size} {isSet : Bool}
    (h : HalfOk data len isSet) (hi : isSet=false) : len=0 := by
  have hp : ¬0<len := fun hp => by
    have hs := h.isSet_iff.mpr hp
    rw [hi] at hs
    cases hs
  omega

/-- Bytes that fit and are not empty bring a half into shape. -/
theorem halfOk_write {size : ℕ} (data : Buffer size) {bytes : List UInt8} (hn : bytes≠[])
    (hf : bytes.length ≤ size) : HalfOk (data.write bytes) bytes.length true := by
  have hp : 0<bytes.length := List.length_pos_iff.mpr hn
  exact ⟨hf,⟨fun _ => hp,fun _ => rfl⟩,fun h => by cases h⟩

/-- Writing a value keeps the shape. -/
theorem recordOk_storeValue {s : UserSetting} {bytes : List UInt8} (h : RecordOk s)
    (hn : bytes≠[]) (hf : bytes.length ≤ s.maxSize) : RecordOk ((storeValue bytes).apply s) :=
  ⟨halfOk_write s.data hn hf,h.default⟩

/-- Writing a default value keeps the shape. -/
theorem recordOk_storeDefault {s : UserSetting} {bytes : List UInt8} (h : RecordOk s)
    (hn : bytes≠[]) (hf : bytes.length ≤ s.maxSize) : RecordOk ((storeDefault bytes).apply s) :=
  ⟨h.value,halfOk_write s.defaultData hn hf⟩

/-- Loading an entry keeps the shape. -/
theorem recordOk_loadUpdate {s : UserSetting} (subtree : Subtree) (entry : List UInt8)
    (h : RecordOk s) : RecordOk ((loadUpdate subtree entry).apply s) :=
  loadUpdate_keeps (fun _ => recordOk_storeValue h) (fun _ => recordOk_storeDefault h)
    (fun _ _ => ⟨h.value,h.default⟩) h

/-- Every effect keeps the shape of all records. -/
theorem effect_recordOk (w next : World) (hw : AllRecords RecordOk w)
    (h : Effect env allow w next) : AllRecords RecordOk next := by
  have hne : ∀ {data : Mem} {len : ℕ},0<len → bytesAt data len≠[] := by
    intro data len hn hb
    have hz := bytesAt_eq_nil.mp hb
    omega
  refine effect_records ?_ ?_ ?_ w next hw h
  · intro s data len hs hn hf _ _
    exact recordOk_storeValue hs (hne hn) (by rw [length_bytesAt]; exact hf)
  · intro s data len hs hn hf _
    exact recordOk_storeDefault hs (hne hn) (by rw [length_bytesAt]; exact hf)
  · exact fun s _ hs => ⟨hs.value,hs.default⟩

/-- Loading one half of a record keeps what its write keeps. -/
theorem loadFrom_keeps {P : UserSetting → Prop} {nvs : Entries} {subtree : Subtree}
    (hload : ∀ s entry,P s → nvs.lookup (keyWithPrefix subtree s.key)=some entry →
      P ((loadUpdate subtree entry).apply s)) {s : UserSetting} (hs : P s) :
    P (loadFrom subtree nvs.entries s) := by
  unfold loadFrom
  split
  · exact hs
  · rename_i entry he
    exact hload s entry hs he

/-- A property of records that the writes of loading keep survives loading. -/
theorem loadRecord_keeps {P : UserSetting → Prop} {nvs : Entries}
    (hvalue : ∀ s entry,P s → nvs.lookup (keyWithPrefix .value s.key)=some entry → entry≠[] →
      entry.length ≤ s.maxSize → P ((storeValue entry).apply s))
    (hdefault : ∀ s entry,P s → nvs.lookup (keyWithPrefix .default s.key)=some entry →
      entry≠[] → entry.length ≤ s.maxSize → P ((storeDefault entry).apply s))
    (hflag : ∀ s flag,P s → P ((storeFlag flag).apply s)) {s : UserSetting} (hs : P s) :
    P (loadRecord nvs s) := by
  refine loadFrom_keeps ?_ (loadFrom_keeps ?_ (loadFrom_keeps ?_ hs))
  · exact fun s entry hs _ => loadUpdate_keeps nofun nofun (fun _ flag => hflag s flag hs) hs
  · exact fun s entry hs he => loadUpdate_keeps (fun _ => hvalue s entry hs he) nofun nofun hs
  · exact fun s entry hs he => loadUpdate_keeps nofun (fun _ => hdefault s entry hs he) nofun hs

/-- A registered record has its shape. -/
theorem recordOk_record (r : Registration) : RecordOk (record r) :=
  ⟨⟨Nat.zero_le _,by simp [record,UserSetting.fresh],fun _ => rfl⟩,
    ⟨Nat.zero_le _,by simp [record,UserSetting.fresh],fun _ => rfl⟩⟩

/-- Loading gives every record its shape, whatever is stored. -/
theorem recordOk_loadRecord (nvs : Entries) {s : UserSetting} (hs : RecordOk s) :
    RecordOk (loadRecord nvs s) := by
  refine loadRecord_keeps ?_ ?_ ?_ hs
  · exact fun s entry h _ hn hf => recordOk_storeValue h hn hf
  · exact fun s entry h _ hn hf => recordOk_storeDefault h hn hf
  · exact fun s _ h => ⟨h.value,h.default⟩

/-- After a start every record has its shape. -/
theorem booted_recordOk {setup : Setup} {w next : World} (h : Booted setup w next) :
    AllRecords RecordOk next := by
  intro s hs
  rw [h.items] at hs
  obtain ⟨r,_,rfl⟩ := List.mem_map.mp hs
  exact recordOk_loadRecord w.nvs (recordOk_record r)

end UserSettings.Records
