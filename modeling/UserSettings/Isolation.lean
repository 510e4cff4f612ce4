import UserSettings.Device
import UserSettings.Visits

/-!
# What received bytes can do

Commands come from outside, so nothing may be assumed of their bytes. Every
command that does not write behind its value array is answered with one of
seven codes and trips no assertion. A command that fails or only reads leaves
the store as it was; the others change no more than they are meant to.
-/

namespace UserSettings.Isolation

open Bytes Settings Storage Store Effects Setters Reactions Operations Transition Binary Executor
open Outcomes Device Visits

variable {env : Env} {ex : UspExecutor} {st last : ExecState} {ret : ℤ}

/-- Executing something ends without a fault and with one of some codes. -/
def Answers (codes : List ℤ) (executed : Executed) : Prop :=
  ∃ last ret,executed=.ok (last,ret) ∧ ret∈codes

/-- Answers from few codes are answers from many. -/
theorem Answers.mono {few many : List ℤ} {executed : Executed} (h : Answers few executed)
    (hsub : few⊆many) : Answers many executed := by
  obtain ⟨last,ret,hok,hmem⟩ := h
  exact ⟨last,ret,hok,hsub hmem⟩

/-- A response needs space and a transport. -/
theorem respond_answers {encode : UserSetting → Mem → ℕ → Mem×ℤ}
    (hencode : ∀ us buffer len,(encode us buffer len).2=-eNoMem ∨ 0≤(encode us buffer len).2)
    (st : ExecState) (us : UserSetting) : Answers [0,-eNoMem,-eIo] (respond ex encode st us) := by
  unfold respond
  dsimp only
  split
  · rename_i hneg
    have hmem := (hencode us st.respBuffer ex.respBufferLen).resolve_right (by omega)
    rw [if_pos hmem,hmem]
    exact ⟨_,_,rfl,by simp⟩
  · split
    · exact ⟨_,_,rfl,by simp⟩
    · exact ⟨_,_,rfl,by simp⟩

/-- A GET command needs the setting as well. -/
theorem get_answers {encode : UserSetting → Mem → ℕ → Mem×ℤ}
    (hencode : ∀ us buffer len,(encode us buffer len).2=-eNoMem ∨ 0≤(encode us buffer len).2)
    (st : ExecState) (id : UInt16) :
    Answers [0,-eNoEnt,-eNoMem,-eIo] (prvExecGetCommon ex encode st id) := by
  unfold prvExecGetCommon
  split
  · exact ⟨_,_,rfl,by simp⟩
  · exact (respond_answers hencode st _).mono (by simp)

/-- One after another, commands answer with a code of one of them or with zero. -/
theorem stopAtError_answers {α : Type} {codes : List ℤ} {exec : ExecState → α → Executed}
    (hz : 0∈codes) (hexec : ∀ st a,Answers codes (exec st a)) (st : ExecState) (items : List α) :
    Answers codes (stopAtError exec st items) := by
  induction items generalizing st with
  | nil => exact ⟨st,0,rfl,hz⟩
  | cons a rest ih =>
    obtain ⟨next,ret,hok,hmem⟩ := hexec st a
    rw [stopAtError,hok]
    dsimp only
    split
    · exact ⟨next,ret,rfl,hmem⟩
    · exact ih next

/-- A call by identifier asserts nothing when it follows the existence check. -/
theorem afterExists_answers {id : UInt16} (hl : st.world.isLoaded=true)
    (f : UserSetting → World×ℤ) :
    Answers [0,-eNoEnt,-eNoExec] (do
      if ←userSettingsExists st.world (.id id) then
        let (w,ret) ← withSetting st.world (.id id) f
        return ({st with world := w},if ret<0 then -eNoExec else 0)
      else return (st,-eNoEnt)) := by
  unfold userSettingsExists withSetting
  rw [if_pos hl,if_pos hl]
  cases st.world.find (.id id) with
  | none => exact ⟨_,_,rfl,by simp⟩
  | some s =>
    refine ⟨_,_,rfl,?_⟩
    split <;> simp

/-- A RESTORE command always succeeds. -/
theorem restore_answers (hl : st.world.isLoaded=true) : Answers [0] (prvExecRestore env st) := by
  unfold prvExecRestore userSettingsRestoreDefaults
  rw [if_pos hl]
  exact ⟨_,_,rfl,List.mem_cons_self⟩

/-- What the decoder can give: an error, or a command of a known type. -/
theorem decode_ret (buffer : Mem) (len : UInt32) :
    (userSettingsProtocolBinaryDecodeCommand buffer len).ret=-eProto ∨
      (userSettingsProtocolBinaryDecodeCommand buffer len).ret=-eNotSup ∨
      (0≤(userSettingsProtocolBinaryDecodeCommand buffer len).ret ∧
        ∃ type,commandType? (userSettingsProtocolBinaryDecodeCommand buffer len).command.type=
          some type) := by
  unfold userSettingsProtocolBinaryDecodeCommand
  by_cases hz : len=0
  · rw [if_pos hz]
    exact .inl rfl
  · rw [if_neg hz]
    dsimp only
    cases ht : commandType? (buffer 0) with
    | none => exact .inr (.inl rfl)
    | some type =>
      cases type with
      | list | listFull | restore => exact .inr (.inr ⟨by simp,_,ht⟩)
      | get | getFull =>
        dsimp only
        split
        · exact .inl rfl
        · exact .inr (.inr ⟨by simp,_,ht⟩)
      | set | setDefault =>
        dsimp only
        unfold decodeValue
        split
        · exact .inl rfl
        · exact .inr (.inr ⟨by dsimp only; omega,_,ht⟩)
      | listSome | listSomeFull =>
        dsimp only
        unfold decodeIds
        dsimp only
        split
        · exact .inl rfl
        · exact .inr (.inr ⟨by dsimp only; omega,_,ht⟩)

/-- A command that is executed does not write behind the value array. -/
theorem inside_of_executed {buffer : Mem} {len : UInt32} {respBufferLen : ℕ}
    {writeResponse : List (List UInt8) → List UInt8 → ℤ}
    (h : uspExecutorParseAndExecute env (binaryExecutor respBufferLen writeResponse) st buffer
      len=.ok (last,ret)) :
    ∀ i∈(userSettingsProtocolBinaryDecodeCommand buffer len).writes,i<valueSize := by
  intro i hi
  by_contra hge
  have hany : (userSettingsProtocolBinaryDecodeCommand buffer len).writes.any
      (fun i => decide (valueSize ≤ i))=true :=
    List.any_eq_true.mpr ⟨i,hi,decide_eq_true (Nat.not_lt.mp hge)⟩
  unfold uspExecutorParseAndExecute at h
  dsimp only [binaryExecutor] at h
  rw [if_pos hany] at h
  cases h

/-- The return codes of the executor. -/
def resultCodes : List ℤ := [0,-eProto,-eNotSup,-eNoEnt,-eNoMem,-eIo,-eNoExec]

/-- For every loaded store, whatever set calls on registered settings its
callbacks make, every buffer of every length, every response buffer size and
every behaviour of storage and of the transport: a command that does not write
behind the value array trips no assertion and is answered with one of the seven
codes. A call of a callback that names no setting trips one by itself, and is
left out of what callbacks do. -/
theorem parseAndExecute_answers (env : Env) {st : ExecState} (hl : st.world.isLoaded=true)
    (respBufferLen : ℕ) (writeResponse : List (List UInt8) → List UInt8 → ℤ) {buffer : Mem}
    {len : UInt32}
    (hw : ∀ i∈(userSettingsProtocolBinaryDecodeCommand buffer len).writes,i<valueSize) :
    Answers resultCodes (uspExecutorParseAndExecute env
      (binaryExecutor respBufferLen writeResponse) st buffer len) := by
  have hencode := encodeOf_ret respBufferLen writeResponse false
  have hencodeFull := encodeOf_ret respBufferLen writeResponse true
  have hany : ¬(userSettingsProtocolBinaryDecodeCommand buffer len).writes.any
      (fun i => decide (valueSize ≤ i))=true := by
    rw [List.any_eq_true]
    rintro ⟨i,hi,hle⟩
    have hlt := hw i hi
    have hge := of_decide_eq_true hle
    omega
  have hshort : [0,-eNoMem,-eIo]⊆resultCodes := by simp [resultCodes]
  have hget : [0,-eNoEnt,-eNoMem,-eIo]⊆resultCodes := by simp [resultCodes]
  have hset : [0,-eNoEnt,-eNoExec]⊆resultCodes := by simp [resultCodes]
  unfold uspExecutorParseAndExecute
  dsimp only [binaryExecutor]
  rw [if_neg hany]
  rcases decode_ret buffer len with hp|hs|⟨hn,type,htype⟩
  · rw [hp,if_pos (by decide)]
    exact ⟨_,_,rfl,by simp [resultCodes]⟩
  · rw [hs,if_pos (by decide)]
    exact ⟨_,_,rfl,by simp [resultCodes]⟩
  · rw [if_neg (by omega),htype]
    cases type with
    | get => exact (get_answers hencode st _).mono hget
    | getFull => exact (get_answers hencodeFull st _).mono hget
    | list =>
      exact (stopAtError_answers (by simp) (respond_answers hencode) st _).mono hshort
    | listFull =>
      exact (stopAtError_answers (by simp) (respond_answers hencodeFull) st _).mono hshort
    | set => exact (afterExists_answers hl _).mono hset
    | setDefault => exact (afterExists_answers hl _).mono hset
    | restore => exact (restore_answers hl).mono (by simp [resultCodes])
    | listSome => exact (stopAtError_answers (by simp) (get_answers hencode) st _).mono hget
    | listSomeFull =>
      exact (stopAtError_answers (by simp) (get_answers hencodeFull) st _).mono hget

/-- A SET command with a value on a new device. -/
theorem answers_on_device : ∃ start,boot calm (device .u8 0 none none) ∅=.ok start ∧
    Answers resultCodes (uspExecutorParseAndExecute calm (binaryExecutor 64 fun _ _ => 0)
      ⟨start,fun _ => 0,[]⟩ (memOf [5,1,0,1,7]) 5) :=
  ⟨_,rfl,parseAndExecute_answers calm rfl 64 (fun _ _ => 0) (by decide)⟩

/-- At most the value and the changed flag of the setting with an identifier
differ, in RAM and in storage. -/
structure OnlyValue (id : UInt16) (w next : World) : Prop where
  /-- Other records stay. -/
  others : ∀ key s,w.getByKey key=some s → s.id≠id → next.getByKey key=some s
  /-- Of its record only the value and the flag differ. -/
  own : ∀ key s,w.getByKey key=some s → s.id=id → ∃ data len isSet flag,next.getByKey key=
    some { s with
      data := data
      dataLen := len
      isSet := isSet
      hasChangedRecently := flag }
  /-- Other entries stay. -/
  entry : ∀ name,(∀ s,w.find (.id id)=some s →
      name≠keyWithPrefix .value s.key ∧ name≠keyWithPrefix .changed s.key) →
    next.nvs.lookup name=w.nvs.lookup name
  /-- The registrations stay. -/
  regs : registrations next=registrations w

/-- At most the default value of the setting with an identifier differs, in RAM
and in storage. -/
structure OnlyDefault (id : UInt16) (w next : World) : Prop where
  /-- Other records stay. -/
  others : ∀ key s,w.getByKey key=some s → s.id≠id → next.getByKey key=some s
  /-- Of its record only the default value differs. -/
  own : ∀ key s,w.getByKey key=some s → s.id=id → ∃ data len isSet,next.getByKey key=
    some { s with
      defaultData := data
      defaultDataLen := len
      defaultIsSet := isSet }
  /-- Other entries stay. -/
  entry : ∀ name,(∀ s,w.find (.id id)=some s → name≠keyWithPrefix .default s.key) →
    next.nvs.lookup name=w.nvs.lookup name
  /-- The registrations stay. -/
  regs : registrations next=registrations w
  /-- No callback is called. -/
  trace : next.trace=w.trace

variable {w next : World} {s : UserSetting} {id : UInt16}

/-- A store that did not change at all. -/
theorem OnlyValue.refl (id : UInt16) (w : World) : OnlyValue id w w :=
  ⟨fun _ _ h _ => h,fun _ s h _ => ⟨s.data,s.dataLen,s.isSet,s.hasChangedRecently,h⟩,
    fun _ _ => rfl,rfl⟩

/-- Likewise for default values. -/
theorem OnlyDefault.refl (id : UInt16) (w : World) : OnlyDefault id w w :=
  ⟨fun _ _ h _ => h,fun _ s h _ => ⟨s.defaultData,s.defaultDataLen,s.defaultIsSet,h⟩,
    fun _ _ => rfl,rfl,rfl⟩

/-- A key leads to the record with an identifier or to another one. -/
theorem key_eq_of_id {t : UserSetting} {key : CString} (hf : w.find (.id id)=some s)
    (ht : w.getByKey key=some t) : (t.id=id → t=s ∧ key=s.key) ∧ (t.id≠id → key≠s.key) := by
  have hkey := key_of_getByKey ht
  have hid : s.id=id := (getById_some hf).2
  constructor
  · intro h
    have hfound : w.find (.id t.id)=some t := getById_of_mem (getByKey_some ht).1
    rw [h,hf] at hfound
    cases Option.some.inj hfound
    exact ⟨rfl,hkey.symm⟩
  · intro hne he
    have hs := getByKey_of_find hf
    rw [he,hs] at ht
    cases Option.some.inj ht
    exact hne hid

section Writers

variable (hsave : ∀ n,env.saveResult n=0) (hq : Passive env.callbacks)

include hsave hq

/-- A set call changes at most value and flag of its setting; one that fails
changes nothing. -/
theorem set_onlyValue (data : Mem) (len : ℕ) (hf : w.find (.id id)=some s) :
    OnlyValue id w (prvUserSettingsSet env env.callbacks w s data len).1 ∧
      ((prvUserSettingsSet env env.callbacks w s data len).2≠0 →
        (prvUserSettingsSet env env.callbacks w s data len).1=w) := by
  have hs := getByKey_of_find hf
  by_cases hw : Writes s data len
  · have honly : OnlyAt s.key w (prvUserSettingsSet env env.callbacks w s data len).1 :=
      onlyAt_set hq hs
    have hrec := set_record env hq hs hw
    refine ⟨⟨?_,?_,?_,honly.regs⟩,fun h => absurd (set_ret hsave hq hs hw) h⟩
    · intro key t ht hne
      rw [honly.record key ((key_eq_of_id hf ht).2 hne)]
      exact ht
    · intro key t ht he
      obtain ⟨rfl,rfl⟩ := (key_eq_of_id hf ht).1 he
      rw [hrec]
      unfold valueRecord
      split
      · exact ⟨t.data,t.dataLen,t.isSet,_,rfl⟩
      · exact ⟨t.data.write (bytesAt data len),(bytesAt data len).length,true,_,rfl⟩
    · intro name hname
      obtain ⟨hvalue,hchanged⟩ := hname s hf
      rw [set_lookup hsave hq hs hw,if_neg hvalue,if_neg (fun h => hchanged h.1)]
  · rw [userSettingsSet_keeps hw]
    exact ⟨OnlyValue.refl id w,fun _ => rfl⟩

omit hq in
/-- A set_default call changes at most the default of its setting; one that
fails changes nothing. -/
theorem setDefault_onlyDefault (data : Mem) (len : ℕ) (hf : w.find (.id id)=some s) :
    OnlyDefault id w (prvUserSettingsSetDefault env env.callbacks w s data len).1 ∧
      ((prvUserSettingsSetDefault env env.callbacks w s data len).2≠0 →
        (prvUserSettingsSetDefault env env.callbacks w s data len).1=w) := by
  have hs := getByKey_of_find hf
  by_cases hw : WritesDefault env s data len
  · have honly : OnlyAt s.key w (prvUserSettingsSetDefault env env.callbacks w s data len).1 :=
      onlyAt_setDefault hs
    have hrec := setDefault_record env env.callbacks hs hw
    refine ⟨⟨?_,?_,?_,honly.regs,setDefault_trace hs⟩,
      fun h => absurd (setDefault_ret hsave hs hw) h⟩
    · intro key t ht hne
      rw [honly.record key ((key_eq_of_id hf ht).2 hne)]
      exact ht
    · intro key t ht he
      obtain ⟨rfl,rfl⟩ := (key_eq_of_id hf ht).1 he
      rw [hrec]
      unfold defaultRecord
      split
      · exact ⟨t.defaultData,t.defaultDataLen,t.defaultIsSet,rfl⟩
      · exact ⟨t.defaultData.write (bytesAt data len),(bytesAt data len).length,true,rfl⟩
    · intro name hname
      rw [setDefault_lookup hsave hs hw,if_neg (hname s hf)]
  · rw [userSettingsSetDefault_keeps hw]
    exact ⟨OnlyDefault.refl id w,fun _ => rfl⟩

/-- A SET command. -/
theorem execSet_onlyValue {value : Mem} {valueLen : UInt8}
    (h : prvExecSet env st id value valueLen=.ok (last,ret)) :
    OnlyValue id st.world last.world ∧ (ret≠0 → last.world=st.world) := by
  unfold prvExecSet at h
  obtain ⟨found,_,h⟩ := bind_eq_ok.mp h
  split at h
  · obtain ⟨⟨middle,err⟩,hset,h⟩ := bind_eq_ok.mp h
    obtain ⟨_,s,hf,hr⟩ := withSetting_ok hset
    have hspec := set_onlyValue hsave hq value valueLen.toNat hf
    rw [←hr] at hspec
    cases h
    refine ⟨hspec.1,fun hne => hspec.2 fun hz => hne ?_⟩
    have herr : err=0 := hz
    rw [herr]
    rfl
  · cases h
    exact ⟨OnlyValue.refl id _,fun _ => rfl⟩

omit hq in
/-- A SET DEFAULT command. -/
theorem execSetDefault_onlyDefault {value : Mem} {valueLen : UInt8}
    (h : prvExecSetDefault env st id value valueLen=.ok (last,ret)) :
    OnlyDefault id st.world last.world ∧ (ret≠0 → last.world=st.world) := by
  unfold prvExecSetDefault at h
  obtain ⟨found,_,h⟩ := bind_eq_ok.mp h
  split at h
  · obtain ⟨⟨middle,err⟩,hset,h⟩ := bind_eq_ok.mp h
    obtain ⟨_,s,hf,hr⟩ := withSetting_ok hset
    have hspec := setDefault_onlyDefault hsave value valueLen.toNat hf
    rw [←hr] at hspec
    cases h
    refine ⟨hspec.1,fun hne => hspec.2 fun hz => hne ?_⟩
    have herr : err=0 := hz
    rw [herr]
    rfl
  · cases h
    exact ⟨OnlyDefault.refl id _,fun _ => rfl⟩

end Writers

/-- What a command may change, by its type and its result. -/
structure Isolated (buffer : Mem) (w next : World) (ret : ℤ) : Prop where
  /-- A command that fails changes nothing: no record, no entry, no trace. -/
  failed : ret≠0 → next=w
  /-- A command that reads changes nothing. -/
  reads : ∀ type∈[UserSettingsProtocolCommandType.get,.getFull,.list,.listFull,.listSome,
    .listSomeFull],commandType? (buffer 0)=some type → next=w
  /-- SET changes at most value and flag of the setting it names. -/
  set : commandType? (buffer 0)=some .set → OnlyValue (word16 buffer 1) w next
  /-- SET DEFAULT changes at most the default of the setting it names. -/
  setDefault : commandType? (buffer 0)=some .setDefault → OnlyDefault (word16 buffer 1) w next
  /-- Only RESTORE may touch more than one setting. -/
  others : commandType? (buffer 0)≠some .restore →
    ∃ id,∀ key s,w.getByKey key=some s → s.id≠id → next.getByKey key=some s

/-- A command that changes nothing is isolated. -/
theorem Isolated.of_eq {buffer : Mem} (h : next=w) : Isolated buffer w next ret := by
  subst h
  exact ⟨fun _ => rfl,fun _ _ _ => rfl,fun _ => OnlyValue.refl _ _,fun _ => OnlyDefault.refl _ _,
    fun _ => ⟨0,fun _ _ hs _ => hs⟩⟩

/-- The command of a successful decoding. -/
theorem decode_command {buffer : Mem} {len : UInt32}
    (h : ¬(userSettingsProtocolBinaryDecodeCommand buffer len).ret<0) :
    (userSettingsProtocolBinaryDecodeCommand buffer len).command.type=buffer 0 ∧
      (commandType? (buffer 0)=some .set ∨ commandType? (buffer 0)=some .setDefault →
        (userSettingsProtocolBinaryDecodeCommand buffer len).command.id=word16 buffer 1) := by
  have hproto : (-eProto : ℤ)<0 := by decide
  have hnotsup : (-eNotSup : ℤ)<0 := by decide
  unfold userSettingsProtocolBinaryDecodeCommand at h ⊢
  by_cases hz : len=0
  · rw [if_pos hz] at h
    exact absurd hproto h
  · rw [if_neg hz] at h ⊢
    dsimp only at h ⊢
    cases ht : commandType? (buffer 0) with
    | none =>
      rw [ht] at h
      exact absurd hnotsup h
    | some type =>
      rw [ht] at h
      cases type with
      | list | listFull | restore => exact ⟨rfl,fun hc => by simp at hc⟩
      | get | getFull =>
        dsimp only at h ⊢
        split at h
        · exact absurd hproto h
        · rename_i h3
          rw [if_neg h3]
          exact ⟨rfl,fun hc => by simp at hc⟩
      | set | setDefault =>
        dsimp only [decodeValue] at h ⊢
        split at h
        · exact absurd hproto h
        · rename_i h5
          rw [if_neg h5]
          exact ⟨rfl,fun _ => rfl⟩
      | listSome | listSomeFull =>
        dsimp only [decodeIds] at h ⊢
        split at h
        · exact absurd hproto h
        · rename_i hn
          rw [if_neg hn]
          exact ⟨rfl,fun hc => by simp at hc⟩

/-- For every store, buffer, length, response buffer and transport, when
storage does not fail and callbacks do not modify settings: an executed
command that fails or only reads leaves records, entries and trace as they
were, SET changes at most value and flag of the setting it names, SET DEFAULT
at most its default, and only RESTORE touches more than one setting. -/
theorem executor_isolates (env : Env) (hq : ∀ n,env.react n=[])
    (hsave : ∀ n,env.saveResult n=0) (st last : ExecState) (respBufferLen : ℕ)
    (writeResponse : List (List UInt8) → List UInt8 → ℤ) (buffer : Mem) (len : UInt32) (ret : ℤ)
    (h : uspExecutorParseAndExecute env (binaryExecutor respBufferLen writeResponse) st buffer
      len=.ok (last,ret)) : Isolated buffer st.world last.world ret := by
  have hpassive := passive_callbacks hq
  unfold uspExecutorParseAndExecute at h
  dsimp only [binaryExecutor] at h
  split at h
  · cases h
  · split at h
    · cases h
      exact .of_eq rfl
    · rename_i hneg
      obtain ⟨htype,hid⟩ := decode_command hneg
      rw [htype] at h
      split at h <;> rename_i hb
      · exact .of_eq (get_world h)
      · exact .of_eq (get_world h)
      · exact .of_eq (stopAtError_world (fun _ _ _ _ => respond_world) h)
      · exact .of_eq (stopAtError_world (fun _ _ _ _ => respond_world) h)
      · rw [hid (.inl hb)] at h
        obtain ⟨honly,hfail⟩ := execSet_onlyValue hsave hpassive h
        refine ⟨hfail,?_,fun _ => honly,?_,fun _ => ⟨_,honly.others⟩⟩
        · intro type hmem ht
          cases Option.some.inj (hb.symm.trans ht)
          simp at hmem
        · intro ht
          cases Option.some.inj (hb.symm.trans ht)
      · rw [hid (.inr hb)] at h
        obtain ⟨honly,hfail⟩ := execSetDefault_onlyDefault hsave h
        refine ⟨hfail,?_,?_,fun _ => honly,fun _ => ⟨_,honly.others⟩⟩
        · intro type hmem ht
          cases Option.some.inj (hb.symm.trans ht)
          simp at hmem
        · intro ht
          cases Option.some.inj (hb.symm.trans ht)
      · unfold prvExecRestore at h
        obtain ⟨middle,_,h⟩ := bind_eq_ok.mp h
        cases h
        refine ⟨fun hne => absurd rfl hne,?_,?_,?_,fun hne => absurd hb hne⟩
        · intro type hmem ht
          cases Option.some.inj (hb.symm.trans ht)
          simp at hmem
        · intro ht
          cases Option.some.inj (hb.symm.trans ht)
        · intro ht
          cases Option.some.inj (hb.symm.trans ht)
      · exact .of_eq (stopAtError_world (fun _ _ _ _ => get_world) h)
      · exact .of_eq (stopAtError_world (fun _ _ _ _ => get_world) h)
      · cases h

/-- A SET command with a value for the first of two settings is isolated: the
value is set, and the second setting stays as it was. -/
theorem isolates_on_device :
    let setup : Setup :=
      ⟨[⟨1,keyA,.u8,0,none,none⟩,⟨2,keyB,.u8,0,none,none⟩],none⟩
    ∃ start last s t other,boot calm setup ∅=.ok start ∧
      uspExecutorParseAndExecute calm (binaryExecutor 64 fun _ _ => 0) ⟨start,fun _ => 0,[]⟩
        (memOf [5,1,0,1,7]) 5=.ok (last,0) ∧
      Isolated (memOf [5,1,0,1,7]) start last.world 0 ∧
      start.find (.id 1)=some s ∧ s.isSet=false ∧
      last.world.find (.id 1)=some t ∧ t.isSet=true ∧ t.value=[7] ∧
      start.find (.id 2)=some other ∧ last.world.getByKey other.key=some other := by
  intro setup
  obtain ⟨start,last,s,t,other,hboot,hrun,hs,hunset,ht,hset,hvalue,hother⟩ :
      ∃ start last s t other,boot calm setup ∅=.ok start ∧
        uspExecutorParseAndExecute calm (binaryExecutor 64 fun _ _ => 0) ⟨start,fun _ => 0,[]⟩
          (memOf [5,1,0,1,7]) 5=.ok (last,0) ∧
        start.find (.id 1)=some s ∧ s.isSet=false ∧ last.world.find (.id 1)=some t ∧
        t.isSet=true ∧ t.value=[7] ∧ start.find (.id 2)=some other :=
    ⟨_,_,_,_,_,rfl,rfl,rfl,rfl,rfl,rfl,rfl,rfl⟩
  have hisolated : Isolated (memOf [5,1,0,1,7]) start last.world 0 :=
    executor_isolates calm (fun _ => rfl) (fun _ => rfl) ⟨start,fun _ => 0,[]⟩ last 64
      (fun _ _ => 0) (memOf [5,1,0,1,7]) 5 0 hrun
  have hid : other.id≠word16 (memOf [5,1,0,1,7]) 1 := by
    rw [(getById_some hother).2]
    decide
  exact ⟨start,last,s,t,other,hboot,hrun,hisolated,hs,hunset,ht,hset,hvalue,hother,
    (hisolated.set rfl).others other.key other (getByKey_of_find hother) hid⟩

end UserSettings.Isolation
