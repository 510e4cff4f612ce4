import UserSettings.Device

/-!
# Ranges of integers

The validate callback for a range reads a whole integer from the bytes it is
given, however many were announced. A shorter value leaves the end of the old
one in place, so the stored integer is the one that was judged as long as
that end is zero, and then it never leaves the range.
-/

namespace UserSettings.Range

open Bytes Values Settings Storage Store Effects Setters Reactions Load Records Cells Operations
open Transition Binary Executor Device

/-- The validate callback of a range of an integer type. -/
def userSettingsValidateCbRange (type : UserSettingType) (size : ℕ) (min max : ℤ) : ValidateFn :=
  fun _ _ data _ =>
    let val := readAs type size data
    let lower := convertInteger type.isSigned size min
    let upper := convertInteger type.isSigned size max
    if val<lower ∨ upper<val then false else true

/-- A target names the setting of a registration. -/
def Names (r : Registration) : Target → Prop
  | .key key => key=r.key
  | .id id => id=r.id

/-- The operations are commands of type SET and set calls, where a call for
the setting has its full width. -/
def SetOnly (r : Registration) (size : ℕ) : DeviceOp → Prop
  | .store (.set target _ len) => Names r target → len=size
  | .binary _ _ _ buffer _ => commandType? (buffer 0)=some .set
  | _ => False

/-- A command that writes the setting announces no bytes, or what it leaves of
the old value is zero. -/
def TailZero (r : Registration) (size : ℕ) (w : World) : DeviceOp → Prop
  | .binary _ _ _ buffer len =>
    let cmd := (userSettingsProtocolBinaryDecodeCommand buffer len).command
    cmd.id=r.id → ∀ s,w.getByKey r.key=some s →
      Writes s cmd.value.mem cmd.valueLen.toNat →
      cmd.valueLen.toNat=0 ∨ ∀ i,cmd.valueLen.toNat ≤ i → i < size → s.data.mem i=0
  | _ => True

/-- The value that a getter of the setting returns lies in the range. -/
def ReadInRange (r : Registration) (size : ℕ) (min max : ℤ) (w : World) : Prop :=
  ∀ s,w.getByKey r.key=some s → s.isSet=true → ∀ data len,
    userSettingsGet w (.key r.key)=.ok (some (data,len)) →
    min ≤ readAs r.type size data ∧ readAs r.type size data ≤ max

/-- What a write may leave of the old value: the judged bytes and the stored
ones are the same over the whole width. -/
def TailKept (reg : Registration) (s : UserSetting) (data : Mem) (len : ℕ) : Prop :=
  registration s=reg → ∀ i,len ≤ i → i < s.maxSize → data i=s.data.mem i

/-- Values that keep the end of the old one may be written. What is stored does
not matter, since it is not read again before the next start. -/
def tailKept (reg : Registration) : Allowance := ⟨TailKept reg,fun _ _ _ => True⟩

/-- The integer in RAM lies in the range, if it is set. -/
def RangeOk (reg : Registration) (min max : ℤ) (s : UserSetting) : Prop :=
  registration s=reg → s.isSet=true →
    min ≤ readAs s.type s.maxSize s.data.mem ∧ readAs s.type s.maxSize s.data.mem ≤ max

variable {env : Env} {setup : Setup} {w next : World} {r : Registration} {size : ℕ} {min max : ℤ}

/-- An accepted integer lies in the range. -/
theorem range_of_validates {type : UserSettingType} {id : UInt16} {key : CString} {data : Mem}
    {len : ℕ} (hmin : convertInteger type.isSigned size min=min)
    (hmax : convertInteger type.isSigned size max=max)
    (h : userSettingsValidateCbRange type size min max id key data len=true) :
    min ≤ readAs type size data ∧ readAs type size data ≤ max := by
  unfold userSettingsValidateCbRange at h
  dsimp only at h
  rw [hmin,hmax] at h
  split at h
  · cases h
  · omega

/-- The space of a setting of fixed size. -/
theorem space_eq (hsize : prvTypeToSize r.type=some size) : space r=size := by
  unfold space
  rw [hsize]

/-- An effect that keeps no tail keeps the range. -/
theorem rangeOk_effect (hsize : prvTypeToSize r.type=some size)
    (hmin : convertInteger r.type.isSigned size min=min)
    (hmax : convertInteger r.type.isSigned size max=max)
    (hv : r.validateCb=some (userSettingsValidateCbRange r.type size min max)) (w next : World)
    (h : AllRecords (RangeOk (registration (record r)) min max) w)
    (he : Effect env (tailKept (registration (record r))) w next) :
    AllRecords (RangeOk (registration (record r)) min max) next := by
  refine effect_records ?_ ?_ ?_ w next h he
  · intro s data len _ _ hf hvalid htail hreg _
    have hsame : registration s=registration (record r) := hreg
    have htype : s.type=r.type := congrArg Registration.type hsame
    have hspace : s.maxSize=size :=
      (congrArg Registration.size hsame).trans (space_eq hsize)
    have hcb : s.validateCb=r.validateCb := congrArg Registration.validateCb hsame
    have hbytes : bytesAt (s.data.write (bytesAt data len)).mem s.maxSize=
        bytesAt data s.maxSize := Buffer.bytesAt_write_of_tail hf (htail hsame)
    have hread : readAs s.type s.maxSize (s.data.write (bytesAt data len)).mem=
        readAs r.type size data := by
      unfold readAs
      rw [loadInteger_congr hbytes,htype,hspace]
    unfold UserSetting.validates at hvalid
    rw [hcb,hv] at hvalid
    have hrange := range_of_validates hmin hmax hvalid
    change min ≤ readAs s.type s.maxSize (s.data.write (bytesAt data len)).mem ∧
      readAs s.type s.maxSize (s.data.write (bytesAt data len)).mem ≤ max
    rw [hread]
    exact hrange
  · exact fun s _ _ hp _ _ _ => hp
  · exact fun s _ hp => hp

/-- A setting without a stored value is not set after a start. -/
theorem rangeOk_booted (h : Booted setup w next)
    (hempty : w.nvs.lookup (keyWithPrefix .value r.key)=none) :
    AllRecords (RangeOk (registration (record r)) min max) next := by
  intro s hs hreg hset
  rw [h.items] at hs
  obtain ⟨other,_,rfl⟩ := List.mem_map.mp hs
  have hkey : (record other).key=r.key := by
    rw [registration_loadRecord] at hreg
    have hk := congrArg Registration.key hreg
    exact hk
  have hunset : (loadRecord w.nvs (record other)).key=r.key ∧
      (loadRecord w.nvs (record other)).isSet=false := by
    refine loadRecord_keeps (P:=fun s => s.key=r.key ∧ s.isSet=false) ?_ ?_ ?_ ⟨hkey,rfl⟩
    · intro s entry hp hlook _ _
      rw [hp.1,hempty] at hlook
      cases hlook
    · exact fun s _ hp _ _ _ => hp
    · exact fun s _ hp => hp
  rw [hunset.2] at hset
  cases hset

/-- A set call of full width leaves nothing of the old value. -/
theorem tailKept_of_fullWidth (hsize : prvTypeToSize r.type=some size) {target : Target}
    {data : Mem} {len : ℕ} (hw : Names r target → len=size) (w : World) {s : UserSetting}
    (hs : w.find target=some s) : TailKept (registration (record r)) s data len := by
  intro hreg i hlow hhigh
  have hspace : s.maxSize=size := (congrArg Registration.size hreg).trans (space_eq hsize)
  have hnames : Names r target := by
    cases target with
    | key key =>
      have hk : s.key=key := (getByKey_some hs).2
      exact hk.symm.trans (congrArg Registration.key hreg)
    | id id =>
      have hid : s.id=id := (getById_some hs).2
      exact hid.symm.trans (congrArg Registration.id hreg)
  have hlen := hw hnames
  omega

/-- The type of a decoded command is the first byte. -/
theorem decode_type {buffer : Mem} {len : UInt32} (h : len≠0) :
    (userSettingsProtocolBinaryDecodeCommand buffer len).command.type=buffer 0 := by
  unfold userSettingsProtocolBinaryDecodeCommand
  rw [if_neg h]
  dsimp only
  split
  · rfl
  · rfl
  · rfl
  · split <;> rfl
  · split <;> rfl
  · unfold decodeValue
    split <;> rfl
  · unfold decodeValue
    split <;> rfl
  · unfold decodeIds
    dsimp only
    split <;> rfl
  · unfold decodeIds
    dsimp only
    split <;> rfl
  · rfl

/-- The value array of a decoded SET command is zero behind the value. -/
theorem decode_value_zero {buffer : Mem} {len : UInt32}
    (hset : commandType? (buffer 0)=some .set) {i : ℕ}
    (hi : (userSettingsProtocolBinaryDecodeCommand buffer len).command.valueLen.toNat ≤ i) :
    (userSettingsProtocolBinaryDecodeCommand buffer len).command.value.mem i=0 := by
  unfold userSettingsProtocolBinaryDecodeCommand at hi ⊢
  by_cases hz : len=0
  · rw [if_pos hz]
    exact Buffer.mem_zero _ _
  · rw [if_neg hz] at hi ⊢
    dsimp only at hi ⊢
    rw [hset] at hi ⊢
    dsimp only at hi ⊢
    unfold decodeValue at hi ⊢
    split
    · exact Buffer.mem_zero _ _
    · rename_i hlen
      rw [if_neg hlen] at hi
      exact Buffer.mem_write_zero (by rw [length_bytesAt]; exact hi)

/-- A SET command is a set call with the decoded value. -/
theorem setCommand_effects {allow : Allowance} {respBufferLen : ℕ}
    {writeResponse : List (List UInt8) → List UInt8 → ℤ} {st last : ExecState} {buffer : Mem}
    {len : UInt32} {ret : ℤ} (hcb : Within env allow env.callbacks)
    (hset : commandType? (buffer 0)=some .set)
    (h : uspExecutorParseAndExecute env (binaryExecutor respBufferLen writeResponse) st buffer
      len=.ok (last,ret))
    (ha : let cmd := (userSettingsProtocolBinaryDecodeCommand buffer len).command
      ∀ s,st.world.find (.id cmd.id)=some s → 0<cmd.valueLen.toNat →
        Writes s cmd.value.mem cmd.valueLen.toNat →
          allow.value s cmd.value.mem cmd.valueLen.toNat) :
    EffectSeq env allow st.world last.world := by
  unfold uspExecutorParseAndExecute at h
  dsimp only [binaryExecutor] at h
  split at h
  · cases h
  · split at h
    · cases h
      exact .refl
    · rename_i hret
      have hne : len≠0 := by
        rintro rfl
        have hzero : (userSettingsProtocolBinaryDecodeCommand buffer 0).ret= -eProto := rfl
        rw [hzero] at hret
        exact hret (by decide)
      rw [decode_type hne,hset] at h
      exact execSet_effects hcb h ha

/-- Every allowed operation that leaves no tail keeps the range. -/
theorem rangeOk_step (hsize : prvTypeToSize r.type=some size)
    (hmin : convertInteger r.type.isSigned size min=min)
    (hmax : convertInteger r.type.isSigned size max=max)
    (hv : r.validateCb=some (userSettingsValidateCbRange r.type size min max))
    (hreact : ∀ n,EachAll (fun target _ len => Names r target → len=size) (env.react n))
    {op : DeviceOp} (hop : SetOnly r size op) (htail : TailZero r size w op)
    (h : AllRecords (RangeOk (registration (record r)) min max) w)
    (hstep : deviceStep env setup w op=some next) :
    AllRecords (RangeOk (registration (record r)) min max) next := by
  have hcb : Within env (tailKept (registration (record r))) env.callbacks :=
    callbacks_within ⟨fun hw hs => tailKept_of_fullWidth hsize hw _ hs,
      fun _ _ _ => trivial⟩ hreact
  have heffects : EffectSeq env (tailKept (registration (record r))) w next := by
    cases op with
    | store op =>
      cases op with
      | set target data len =>
        obtain ⟨result,hrun,rfl⟩ := Option.map_eq_some_iff.mp hstep
        exact set_effects hcb (toOption_eq_some.mp hrun)
          (fun s hs _ _ => tailKept_of_fullWidth hsize hop w hs)
      | _ => cases hop
    | binary respBufferLen writeResponse respBuffer buffer len =>
      obtain ⟨result,hrun,rfl⟩ := Option.map_eq_some_iff.mp hstep
      refine setCommand_effects hcb hop (toOption_eq_some.mp hrun) ?_
      intro cmd s hs hpos hwrites hreg i hlow hhigh
      have hspace : s.maxSize=size := (congrArg Registration.size hreg).trans (space_eq hsize)
      have hid : cmd.id=r.id := by
        have hfound : s.id=cmd.id := (getById_some hs).2
        exact hfound.symm.trans (congrArg Registration.id hreg)
      have hkey : s.key=r.key := congrArg Registration.key hreg
      have hkept := htail hid s (hkey ▸ getByKey_of_find hs) hwrites
      have hzero := hkept.resolve_left (Nat.ne_of_gt hpos) i hlow (by omega)
      rw [hzero]
      exact decode_value_zero hop hlow
    | _ => cases hop
  exact heffects.invariant (rangeOk_effect hsize hmin hmax hv) h

/-- For every integer type, every range of values of the type and every device
with a setting of that type whose validate callback is the one of the range:
if no value is stored at first, then after every run of SET commands and set
calls of full width in which no command keeps a nonzero end of the old value,
the integer that a getter returns lies in the range. Storing may fail at any
time, and callbacks may make set calls of full width. -/
theorem range_never_left (env : Env) (setup : Setup) (nvs : Entries) (r : Registration)
    (size : ℕ) (min max : ℤ) (hr : r∈setup.regs) (hsize : prvTypeToSize r.type=some size)
    (hmin : convertInteger r.type.isSigned size min=min)
    (hmax : convertInteger r.type.isSigned size max=max)
    (hv : r.validateCb=some (userSettingsValidateCbRange r.type size min max))
    (hempty : nvs.lookup (keyWithPrefix .value r.key)=none)
    (hreact : ∀ n,EachAll (fun target _ len => Names r target → len=size) (env.react n))
    (start final : World) (ops : List DeviceOp) (hb : boot env setup nvs=.ok start)
    (hops : ∀ op∈ops,SetOnly r size op)
    (htail : Meets (deviceStep env setup) (TailZero r size) start ops)
    (hrun : run (deviceStep env setup) start ops=some final) :
    ReadInRange r size min max final := by
  have hbooted := reboot_ok hb
  have hstart : AllRecords (RangeOk (registration (record r)) min max) start :=
    rangeOk_booted hbooted hempty
  have hfinal : AllRecords (RangeOk (registration (record r)) min max) final := by
    refine run_invariant ?_ hstart (meets_and hops htail) hrun
    intro w op next hw hcond hstep
    exact rangeOk_step hsize hmin hmax hv hreact hcond.1 hcond.2 hw hstep
  have hreach : Reachable env setup nvs final := ⟨start,ops,hb,hrun⟩
  intro s hs hset data len hget
  have hkey : s.key=r.key := key_of_getByKey hs
  have hreg : registration (record r)=registration s :=
    registered_eq hreach.registered (by rw [hkey,hs]) (List.mem_map_of_mem hr) hkey.symm
  have hok := hfinal.getByKey hs hreg.symm hset
  obtain ⟨_,t,ht,hvalue⟩ := withSetting_ok hget
  have hsame : t=s := Option.some.inj (ht.symm.trans hs)
  subst hsame
  unfold prvUserSettingGet at hvalue
  rw [if_pos hset] at hvalue
  have hdata : data=t.data.mem := congrArg Prod.fst (Option.some.inj hvalue)
  have htype : t.type=r.type := (congrArg Registration.type hreg).symm
  have hspace : t.maxSize=size := (congrArg Registration.size hreg).symm.trans (space_eq hsize)
  rw [hdata,←htype,←hspace]
  exact hok

/-- A two-byte setting with the range from 100 to 300. -/
def rangeRegistration : Registration :=
  ⟨1,keyA,.u16,0,none,some (userSettingsValidateCbRange .u16 2 100 300)⟩

/-- A device with this setting. -/
def rangeDevice : Setup := ⟨[rangeRegistration],none⟩

/-- A SET command of two bytes after a set call. -/
theorem range_never_left_on_device :
    ∃ final,Reachable calm rangeDevice ∅ final ∧ ReadInRange rangeRegistration 2 100 300 final := by
  let ops : List DeviceOp :=
    [.store (.set (.key keyA) (memOf [44,1]) 2),
      .binary 64 (fun _ _ => 0) (fun _ => 0) (memOf [5,1,0,2,200,0]) 6]
  have hb : boot calm rangeDevice ∅=.ok _ := rfl
  have hops : ∀ op∈ops,SetOnly rangeRegistration 2 op :=
    List.forall_mem_cons.mpr ⟨fun _ => rfl,List.forall_mem_singleton.mpr rfl⟩
  have htail : ∀ start,
      Meets (deviceStep calm rangeDevice) (TailZero rangeRegistration 2) start ops := by
    intro _
    refine ⟨trivial,fun _ _ => ⟨?_,fun _ _ => trivial⟩⟩
    intro _ s _ _
    refine .inr fun i hlow hhigh => ?_
    have htwo : 2 ≤ i := hlow
    omega
  exact ⟨_,⟨_,ops,hb,rfl⟩,range_never_left calm rangeDevice ∅ rangeRegistration 2 100 300
    List.mem_cons_self rfl (by decide) (by decide) rfl rfl (fun _ => trivial) _ _ ops hb hops
    (htail _) rfl⟩

/-- After 300 was set a SET command of one byte with the value 100 is accepted,
and the setting reads as 356. -/
theorem range_left_by_short_command :
    ¬∀ (env : Env) (setup : Setup) (r : Registration) (size : ℕ) (min max : ℤ)
      (start final : World) (ops : List DeviceOp),r∈setup.regs → prvTypeToSize r.type=some size →
      convertInteger r.type.isSigned size min=min → convertInteger r.type.isSigned size max=max →
      r.validateCb=some (userSettingsValidateCbRange r.type size min max) →
      (∀ n,env.react n=[]) → boot env setup ∅=.ok start → (∀ op∈ops,SetOnly r size op) →
      run (deviceStep env setup) start ops=some final → ReadInRange r size min max final := by
  intro h
  let ops : List DeviceOp :=
    [.store (.set (.key keyA) (memOf [44,1]) 2),
      .binary 64 (fun _ _ => 0) (fun _ => 0) (memOf [5,1,0,1,100]) 5]
  have hb : boot calm rangeDevice ∅=.ok _ := rfl
  have hops : ∀ op∈ops,SetOnly rangeRegistration 2 op :=
    List.forall_mem_cons.mpr ⟨fun _ => rfl,List.forall_mem_singleton.mpr rfl⟩
  have hread := h calm rangeDevice rangeRegistration 2 100 300 _ _ ops List.mem_cons_self rfl
    (by decide) (by decide) rfl (fun _ => rfl) hb hops rfl _ rfl rfl _ _ rfl
  exact absurd hread.2 (by decide)

end UserSettings.Range
