import UserSettings.Binary
import UserSettings.Operations

/-!
# The protocol executor

One command is decoded and executed; its responses go to the transport one by
one. The executor is generic in the functions of the protocol, as in the C
code. What the transport answers may depend on everything that was handed to
it before, but it does not touch settings. Bytes behind the announced length
of a buffer are arbitrary and are seen by a decoder that reads there; writing
behind the value array of a command is a fault.
-/

namespace UserSettings.Executor

open Bytes Settings Storage Store Operations Binary

/-- The executor: protocol functions, transport and response buffer size. -/
structure UspExecutor where
  /-- Decode a raw buffer to a command. -/
  decodeCommand : Mem → UInt32 → Decoded
  /-- Encode a setting in the short form. -/
  encode : UserSetting → Mem → ℕ → Mem×ℤ
  /-- Encode a setting in the full form. -/
  encodeFull : UserSetting → Mem → ℕ → Mem×ℤ
  /-- The answer of the transport to a response, after those before it. -/
  writeResponse : List (List UInt8) → List UInt8 → ℤ
  /-- The length of the response buffer. -/
  respBufferLen : ℕ

/-- The settings with the response buffer and the responses so far. -/
structure ExecState where
  /-- The store and persistent storage. -/
  world : World
  /-- The response buffer. -/
  respBuffer : Mem
  /-- The responses handed to the transport, in order. -/
  responses : List (List UInt8)

/-- Result of executing something: a state and a return code. -/
abbrev Executed := Except Fault (ExecState×ℤ)

/-- Execute one after another and stop at the first negative code. -/
def stopAtError {α : Type} (exec : ExecState → α → Executed) : ExecState → List α → Executed
  | st,[] => .ok (st,0)
  | st,a::rest =>
    match exec st a with
    | .error fault => .error fault
    | .ok (next,ret) => if ret<0 then .ok (next,ret) else stopAtError exec next rest

/-- Encode a setting and write it as a response. -/
def respond (ex : UspExecutor) (encode : UserSetting → Mem → ℕ → Mem×ℤ) (st : ExecState)
    (us : UserSetting) : Executed :=
  let out := encode us st.respBuffer ex.respBufferLen
  if out.2<0 then
    if out.2=-eNoMem then .ok ({st with respBuffer := out.1},out.2) else .error .assertion
  else
    let bytes := bytesAt out.1 out.2.toNat
    let ret := ex.writeResponse st.responses bytes
    .ok ({st with respBuffer := out.1, responses := st.responses++[bytes]},
      if ret<0 then -eIo else 0)

/-- Execute a GET command. -/
def prvExecGetCommon (ex : UspExecutor) (encode : UserSetting → Mem → ℕ → Mem×ℤ) (st : ExecState)
    (id : UInt16) : Executed :=
  match userSettingsListGetById st.world.list id with
  | none => .ok (st,-eNoEnt)
  | some us => respond ex encode st us

/-- Execute a LIST command. -/
def prvExecListCommon (ex : UspExecutor) (encode : UserSetting → Mem → ℕ → Mem×ℤ)
    (st : ExecState) : Executed :=
  stopAtError (respond ex encode) st st.world.list.items

/-- Set a setting value. -/
def prvExecSet (env : Env) (st : ExecState) (id : UInt16) (value : Mem) (valueLen : UInt8) :
    Executed := do
  if ←userSettingsExists st.world (.id id) then
    let (w,ret) ← userSettingsSetWithId env st.world id value valueLen.toNat
    return ({st with world := w},if ret<0 then -eNoExec else 0)
  else return (st,-eNoEnt)

/-- Set a setting default value. -/
def prvExecSetDefault (env : Env) (st : ExecState) (id : UInt16) (value : Mem)
    (valueLen : UInt8) : Executed := do
  if ←userSettingsExists st.world (.id id) then
    let (w,ret) ← userSettingsSetDefaultWithId env st.world id value valueLen.toNat
    return ({st with world := w},if ret<0 then -eNoExec else 0)
  else return (st,-eNoEnt)

/-- Restore user settings to their default values. -/
def prvExecRestore (env : Env) (st : ExecState) : Executed := do
  let w ← userSettingsRestoreDefaults env st.world
  return ({st with world := w},0)

/-- The identifiers an array of 16-bit words holds. -/
def words (ids : Mem) (numIds : ℕ) : List UInt16 :=
  (List.range numIds).map fun i => word16 ids (2*i)

/-- Execute a LIST_SOME command. -/
def prvExecListSome (ex : UspExecutor) (encode : UserSetting → Mem → ℕ → Mem×ℤ) (st : ExecState)
    (numIds : UInt8) (ids : Mem) : Executed :=
  stopAtError (prvExecGetCommon ex encode) st (words ids numIds.toNat)

/-- Parse and execute a command. -/
def uspExecutorParseAndExecute (env : Env) (ex : UspExecutor) (st : ExecState) (buffer : Mem)
    (len : UInt32) : Executed :=
  let decoded := ex.decodeCommand buffer len
  let cmd := decoded.command
  if decoded.writes.any (valueSize≤·) then .error .overrun
  else if decoded.ret<0 then .ok (st,decoded.ret)
  else
    match commandType? cmd.type with
    | some .get => prvExecGetCommon ex ex.encode st cmd.id
    | some .getFull => prvExecGetCommon ex ex.encodeFull st cmd.id
    | some .list => prvExecListCommon ex ex.encode st
    | some .listFull => prvExecListCommon ex ex.encodeFull st
    | some .set => prvExecSet env st cmd.id cmd.value.mem cmd.valueLen
    | some .setDefault => prvExecSetDefault env st cmd.id cmd.value.mem cmd.valueLen
    | some .restore => prvExecRestore env st
    | some .listSome => prvExecListSome ex ex.encode st (cmd.valueLen/2) cmd.value.mem
    | some .listSomeFull => prvExecListSome ex ex.encodeFull st (cmd.valueLen/2) cmd.value.mem
    | none => .error .assertion

/-- The executor of the binary protocol. -/
def binaryExecutor (respBufferLen : ℕ) (writeResponse : List (List UInt8) → List UInt8 → ℤ) :
    UspExecutor where
  decodeCommand := userSettingsProtocolBinaryDecodeCommand
  encode := userSettingsProtocolBinaryEncode
  encodeFull := userSettingsProtocolBinaryEncodeFull
  writeResponse := writeResponse
  respBufferLen := respBufferLen

/-- What a client sees of an execution: the responses and the return code. -/
def Executed.outcome (executed : Executed) : Except Fault (List (List UInt8)×ℤ) :=
  executed.map fun result => (result.1.responses,result.2)

/-- A response does not touch settings. -/
theorem respond_world {ex : UspExecutor} {encode : UserSetting → Mem → ℕ → Mem×ℤ}
    {st last : ExecState} {us : UserSetting} {ret : ℤ}
    (h : respond ex encode st us=.ok (last,ret)) : last.world=st.world := by
  unfold respond at h
  dsimp only at h
  split at h
  · split at h
    · cases h
      rfl
    · cases h
  · cases h
    rfl

section Loops

variable {α β : Type}

/-- Executing translated commands is executing the translations. -/
theorem stopAtError_map (exec : ExecState → β → Executed) (f : α → β) (st : ExecState)
    (items : List α) :
    stopAtError exec st (items.map f)=stopAtError (fun st a => exec st (f a)) st items := by
  induction items generalizing st with
  | nil => rfl
  | cons a rest ih =>
    simp only [List.map_cons,stopAtError]
    cases exec st (f a) with
    | error fault => rfl
    | ok result => simp only [ih]

/-- What each command keeps, all of them keep. -/
theorem stopAtError_keeps {exec : ExecState → α → Executed} {P : ExecState → Prop}
    (hstep : ∀ st a next ret,P st → exec st a=.ok (next,ret) → P next) {items : List α}
    {st next : ExecState} {ret : ℤ} (h : P st) (hrun : stopAtError exec st items=.ok (next,ret)) :
    P next := by
  induction items generalizing st with
  | nil =>
    cases hrun
    exact h
  | cons a rest ih =>
    rw [stopAtError] at hrun
    cases he : exec st a with
    | error fault =>
      rw [he] at hrun
      cases hrun
    | ok result =>
      have hnext := hstep st a result.1 result.2 h he
      rw [he] at hrun
      dsimp only at hrun
      split at hrun
      · cases hrun
        exact hnext
      · exact ih hnext hrun

/-- Commands that never stop at a fault do not do so one after another. -/
theorem stopAtError_ok {exec : ExecState → α → Executed}
    (hstep : ∀ st a,∃ result,exec st a=.ok result) (st : ExecState) (items : List α) :
    ∃ result,stopAtError exec st items=.ok result := by
  induction items generalizing st with
  | nil => exact ⟨_,rfl⟩
  | cons a rest ih =>
    obtain ⟨result,he⟩ := hstep st a
    rw [stopAtError,he]
    dsimp only
    split
    · exact ⟨_,rfl⟩
    · exact ih result.1

end Loops

/-- The bytes of an identifier. -/
def idBytes (id : UInt16) : List UInt8 := [UInt8.ofNat id.toNat,UInt8.ofNat (id.toNat/256)]

/-- The documented GET and GET FULL commands. -/
def getCommand (full : Bool) (id : UInt16) : List UInt8 := (if full then 2 else 1)::idBytes id

/-- The documented LIST SOME and LIST SOME FULL commands. -/
def listSomeCommand (full : Bool) (ids : List UInt16) : List UInt8 :=
  [if full then 9 else 8,UInt8.ofNat ids.length]++ids.flatMap idBytes

/-- The encoding functions of the two forms. -/
def UspExecutor.encodeOf (ex : UspExecutor) (full : Bool) : UserSetting → Mem → ℕ → Mem×ℤ :=
  if full then ex.encodeFull else ex.encode

/-- Execute the command that lies at the start of some memory. -/
def execCommand (env : Env) (ex : UspExecutor) (tail : Mem) (st : ExecState)
    (command : List UInt8) : Executed :=
  uspExecutorParseAndExecute env ex st (tail.write 0 command) (UInt32.ofNat command.length)

/-- A byte of the command at the start of memory. -/
theorem write_zero_apply (tail : Mem) (bytes : List UInt8) {i : ℕ} (h : i<bytes.length) :
    tail.write 0 bytes i=bytes.getD i 0 := by
  unfold Mem.write
  rw [if_pos (by omega),Nat.sub_zero]

/-- The bytes behind the first part of a command are its second part. -/
theorem bytesAt_behind_write (tail : Mem) (first second : List UInt8) :
    bytesAt (behind (tail.write 0 (first++second)) first.length) second.length=second := by
  have hread := bytesAt_memOf_length second
  refine Eq.trans (bytesAt_eq_iff.mpr fun i hi => ?_) hread
  unfold behind
  rw [write_zero_apply tail _ (by rw [List.length_append]; omega)]
  unfold memOf
  simp only [List.getD_eq_getElem?_getD]
  rw [List.getElem?_append_right (by omega),Nat.add_sub_cancel_left]

/-- An identifier is read back from its bytes. -/
theorem word16_of_idBytes {mem : Mem} {offset : ℕ} {id : UInt16}
    (h : bytesAt (behind mem offset) 2=idBytes id) : word16 mem offset=id := by
  have hval : leNat (idBytes id)=id.toNat := leNat_bytes16 id
  unfold word16
  rw [h,hval,UInt16.ofNat_toNat]

/-- Two bytes for each identifier. -/
theorem length_flatMap_idBytes (ids : List UInt16) : (ids.flatMap idBytes).length=2*ids.length := by
  induction ids with
  | nil => rfl
  | cons id rest ih =>
    simp only [List.flatMap_cons,List.length_append,List.length_cons,ih,idBytes,List.length_nil]
    omega

/-- A read splits at any offset. -/
theorem bytesAt_add (mem : Mem) (offset len : ℕ) :
    bytesAt mem (offset+len)=bytesAt mem offset++bytesAt (behind mem offset) len := by
  unfold bytesAt behind
  rw [List.range_add,List.map_append,List.map_map]
  rfl

/-- The bytes behind the start are all bytes. -/
@[simp] theorem behind_zero (mem : Mem) : behind mem 0=mem := by
  funext i
  unfold behind
  rw [Nat.zero_add]

/-- Offsets into a buffer add up. -/
theorem behind_behind (mem : Mem) (first second : ℕ) :
    behind (behind mem first) second=behind mem (first+second) := by
  funext i
  unfold behind
  rw [Nat.add_assoc]

/-- The words of an array are its first word and those behind it. -/
theorem words_succ (ids : Mem) (numIds : ℕ) :
    words ids (numIds+1)=word16 ids 0::words (behind ids 2) numIds := by
  unfold words
  rw [List.range_succ_eq_map,List.map_cons,List.map_map]
  congr 1
  apply List.map_congr_left
  intro i _
  have hoffset : 2*i.succ=2+2*i := by omega
  unfold word16
  rw [Function.comp_apply,behind_behind,hoffset]

/-- An array that holds the bytes of identifiers is read as these. -/
theorem words_of_idBytes {mem : Mem} {ids : List UInt16}
    (h : bytesAt mem (2*ids.length)=ids.flatMap idBytes) : words mem ids.length=ids := by
  induction ids generalizing mem with
  | nil => rfl
  | cons id rest ih =>
    have hlen : 2*(id::rest).length=2+2*rest.length := by
      rw [List.length_cons]
      omega
    rw [hlen,bytesAt_add,List.flatMap_cons] at h
    have hparts := List.append_inj h (by rw [length_bytesAt]; rfl)
    have hfirst : word16 mem 0=id := word16_of_idBytes (by simpa using hparts.1)
    rw [List.length_cons,words_succ,hfirst,ih hparts.2]

/-- A GET command is executed as the function for it. -/
theorem execCommand_get (env : Env) (ex : UspExecutor)
    (hex : ex.decodeCommand=userSettingsProtocolBinaryDecodeCommand) (tail : Mem)
    (st : ExecState) (full : Bool) (id : UInt16) :
    execCommand env ex tail st (getCommand full id)=
      prvExecGetCommon ex (ex.encodeOf full) st id := by
  have hword : word16 (tail.write 0 (getCommand full id)) 1=id := by
    apply word16_of_idBytes
    exact bytesAt_behind_write tail [if full then 2 else 1] (idBytes id)
  have htype : tail.write 0 (getCommand full id) 0=if full then 2 else 1 :=
    write_zero_apply tail _ (Nat.succ_pos _)
  have hne : ¬UInt32.ofNat (getCommand full id).length=0 := by
    change ¬(UInt32.ofNat 3=0)
    decide
  unfold execCommand uspExecutorParseAndExecute
  rw [hex]
  unfold userSettingsProtocolBinaryDecodeCommand
  rw [if_neg hne]
  cases full with
  | false =>
    simp only [htype,hword]
    rfl
  | true =>
    simp only [htype,hword]
    rfl

/-- A list of identifiers whose number matches is copied as it lies in the buffer. -/
theorem decodeIds_accepted {buffer : Mem} {len : UInt32} {numIds : ℕ} {bytes : List UInt8}
    (hn : numIds≤255) (hlen : len.toNat=2+2*numIds) (hcount : buffer 1=UInt8.ofNat numIds)
    (hbytes : bytesAt (behind buffer 2) (2*numIds)=bytes)
    (command : UserSettingsProtocolCommand) : decodeIds buffer len command=
      ⟨2+(UInt8.ofNat numIds*2).toNat,
        { command with
          valueLen := UInt8.ofNat numIds*2
          value := command.value.write bytes },
        [0,1]++List.range' 2 (2*numIds),List.range (2*numIds)⟩ := by
  have hbuffer : (len-1-1).toNat=2*numIds := by
    rw [idBufferLen_toNat (by omega),hlen]
    omega
  have hnum : (UInt8.ofNat numIds).toNat=numIds := UInt8.toNat_ofNat_of_lt' (by
    unfold UInt8.size
    omega)
  have hsame := (numIds_eq_iff (len-1-1) (UInt8.ofNat numIds)).mpr (by rw [hbuffer,hnum]; omega)
  unfold decodeIds
  dsimp only
  rw [hcount,if_neg (not_not.mpr hsame),hbuffer,hbytes]

/-- The decoded form of a LIST SOME command. -/
theorem decode_listSome (tail : Mem) (full : Bool) {ids : List UInt16} (h : ids.length≤255) :
    ∃ reads,userSettingsProtocolBinaryDecodeCommand (tail.write 0 (listSomeCommand full ids))
      (UInt32.ofNat (listSomeCommand full ids).length)=
      ⟨2+(UInt8.ofNat ids.length*2).toNat,
        { UserSettingsProtocolCommand.zero with
          type := if full then 9 else 8
          valueLen := UInt8.ofNat ids.length*2
          value := (Buffer.zero valueSize).write (ids.flatMap idBytes) },
        reads,List.range (2*ids.length)⟩ := by
  have hids := length_flatMap_idBytes ids
  have hlength : (listSomeCommand full ids).length=2+2*ids.length := by
    unfold listSomeCommand
    rw [List.length_append,hids]
    rfl
  have hlen : (UInt32.ofNat (listSomeCommand full ids).length).toNat=2+2*ids.length := by
    rw [hlength]
    exact UInt32.toNat_ofNat_of_lt' (by unfold UInt32.size; omega)
  have htype : tail.write 0 (listSomeCommand full ids) 0=if full then 9 else 8 :=
    write_zero_apply tail _ (by omega)
  have hcount : tail.write 0 (listSomeCommand full ids) 1=UInt8.ofNat ids.length :=
    write_zero_apply tail _ (by omega)
  have hbytes : bytesAt (behind (tail.write 0 (listSomeCommand full ids)) 2) (2*ids.length)=
      ids.flatMap idBytes := by
    rw [←hids]
    exact bytesAt_behind_write tail [if full then 9 else 8,UInt8.ofNat ids.length] _
  have hne : UInt32.ofNat (listSomeCommand full ids).length≠0 := by
    intro hz
    rw [hz] at hlen
    change 0=2+2*ids.length at hlen
    omega
  have haccepted := decodeIds_accepted h hlen hcount hbytes
    {UserSettingsProtocolCommand.zero with type := if full then 9 else 8}
  refine ⟨[0,1]++List.range' 2 (2*ids.length),?_⟩
  unfold userSettingsProtocolBinaryDecodeCommand
  rw [if_neg hne,htype]
  cases full with
  | false => exact haccepted
  | true => exact haccepted

/-- Copied bytes overrun the value array when there are more than it holds. -/
theorem overrun_iff (len : ℕ) :
    (List.range len).any (fun i => decide (valueSize ≤ i))=true ↔ valueSize < len := by
  simp only [List.any_eq_true,List.mem_range,decide_eq_true_eq]
  constructor
  · rintro ⟨i,hi,hle⟩
    omega
  · exact fun h => ⟨valueSize,h,Nat.le_refl valueSize⟩

/-- The identifiers taken from the value array. The length byte wraps to zero
at 128 of them. -/
theorem announced_words {ids : List UInt16} (h : ids.length≤128) :
    words ((Buffer.zero valueSize).write (ids.flatMap idBytes)).mem
      (UInt8.ofNat ids.length*2/2).toNat=if ids.length=128 then [] else ids := by
  have hids := length_flatMap_idBytes ids
  have hnum : (UInt8.ofNat ids.length*2/2).toNat=if ids.length=128 then 0 else ids.length := by
    rw [UInt8.toNat_div,UInt8.toNat_mul,UInt8.toNat_ofNat_of_lt' (by unfold UInt8.size; omega)]
    change ids.length*2%256/2=_
    split <;> omega
  have hfit : (ids.flatMap idBytes).length ≤ valueSize := by
    change _≤256
    omega
  rw [hnum]
  split
  · rfl
  · apply words_of_idBytes
    rw [←hids,Buffer.bytesAt_mem _ hfit,Buffer.take_write hfit]

/-- What executing a LIST SOME command depends on: its length byte wraps, and
the copied identifiers may not fit. -/
theorem execCommand_listSome (env : Env) (ex : UspExecutor)
    (hex : ex.decodeCommand=userSettingsProtocolBinaryDecodeCommand) (tail : Mem)
    (st : ExecState) (full : Bool) {ids : List UInt16} (h : ids.length≤255) :
    execCommand env ex tail st (listSomeCommand full ids)=
      if 128 < ids.length then .error .overrun
      else stopAtError (prvExecGetCommon ex (ex.encodeOf full)) st
        (if ids.length=128 then [] else ids) := by
  obtain ⟨reads,hdecode⟩ := decode_listSome tail full h
  have hover : valueSize < 2*ids.length ↔ 128 < ids.length := by
    change 256 < 2*ids.length ↔ _
    omega
  unfold execCommand uspExecutorParseAndExecute
  rw [hex,hdecode]
  dsimp only
  by_cases hbig : 128 < ids.length
  · rw [if_pos ((overrun_iff _).mpr (hover.mpr hbig)),if_pos hbig]
  · have hret : ¬((2 : ℤ)+(UInt8.ofNat ids.length*2).toNat<0) := by omega
    rw [if_neg (fun hany => hbig (hover.mp ((overrun_iff _).mp hany))),if_neg hbig,if_neg hret,
      ←announced_words (not_lt.mp hbig)]
    cases full with
    | false => rfl
    | true => rfl

/-- The binary encoders fail only for lack of space. -/
theorem encodeOf_ret (respBufferLen : ℕ) (writeResponse : List (List UInt8) → List UInt8 → ℤ)
    (full : Bool) (us : UserSetting) (buffer : Mem) (len : ℕ) :
    ((binaryExecutor respBufferLen writeResponse).encodeOf full us buffer len).2=-eNoMem ∨
      0≤((binaryExecutor respBufferLen writeResponse).encodeOf full us buffer len).2 := by
  cases full with
  | false =>
    change (userSettingsProtocolBinaryEncode us buffer len).2=-eNoMem ∨
      0≤(userSettingsProtocolBinaryEncode us buffer len).2
    rw [encode_eq]
    split
    · exact .inl rfl
    · exact .inr (Int.natCast_nonneg _)
  | true =>
    change (userSettingsProtocolBinaryEncodeFull us buffer len).2=-eNoMem ∨
      0≤(userSettingsProtocolBinaryEncodeFull us buffer len).2
    rw [encodeFull_eq]
    split
    · exact .inl rfl
    · exact .inr (Int.natCast_nonneg _)

/-- Executing something ends without a fault and is seen by the client: an
error code or one more response. -/
structure Visible (st : ExecState) (executed : Executed) (next : ExecState) (ret : ℤ) : Prop where
  /-- There is no fault. -/
  ok : executed=.ok (next,ret)
  /-- Earlier responses stay. -/
  responses : st.responses<+:next.responses
  /-- Something is seen. -/
  seen : ret<0 ∨ next.responses≠st.responses

/-- A response is visible. -/
theorem respond_visible {ex : UspExecutor} {encode : UserSetting → Mem → ℕ → Mem×ℤ}
    (hencode : ∀ us buffer len,
      (encode us buffer len).2=-eNoMem ∨ 0≤(encode us buffer len).2)
    (st : ExecState) (us : UserSetting) :
    ∃ next ret,Visible st (respond ex encode st us) next ret := by
  unfold respond
  dsimp only
  have hret := hencode us st.respBuffer ex.respBufferLen
  by_cases hneg : (encode us st.respBuffer ex.respBufferLen).2<0
  · have hmem : (encode us st.respBuffer ex.respBufferLen).2=-eNoMem := by
      cases hret with
      | inl h => exact h
      | inr h => omega
    rw [if_pos hneg,if_pos hmem]
    exact ⟨_,_,rfl,List.prefix_refl _,.inl hneg⟩
  · rw [if_neg hneg]
    refine ⟨_,_,rfl,List.prefix_append _ _,.inr fun h => ?_⟩
    have hlen := congrArg List.length h
    simp only [List.length_append,List.length_singleton] at hlen
    omega

/-- A GET command is visible. -/
theorem get_visible {ex : UspExecutor} {encode : UserSetting → Mem → ℕ → Mem×ℤ}
    (hencode : ∀ us buffer len,
      (encode us buffer len).2=-eNoMem ∨ 0≤(encode us buffer len).2)
    (st : ExecState) (id : UInt16) :
    ∃ next ret,Visible st (prvExecGetCommon ex encode st id) next ret := by
  unfold prvExecGetCommon
  cases userSettingsListGetById st.world.list id with
  | none => exact ⟨st,-eNoEnt,rfl,List.prefix_refl _,.inl (by decide)⟩
  | some us => exact respond_visible hencode st us

/-- At least one GET command is visible in the outcome of all. -/
theorem gets_outcome {ex : UspExecutor} {encode : UserSetting → Mem → ℕ → Mem×ℤ}
    (hencode : ∀ us buffer len,
      (encode us buffer len).2=-eNoMem ∨ 0≤(encode us buffer len).2)
    (st : ExecState) {ids : List UInt16} (h : ids≠[]) :
    ∃ next ret,stopAtError (prvExecGetCommon ex encode) st ids=.ok (next,ret) ∧
      (next.responses,ret)≠(st.responses,0) := by
  cases ids with
  | nil => exact absurd rfl h
  | cons id rest =>
    obtain ⟨first,code,hok,hkept,hseen⟩ := get_visible hencode st id
    rw [stopAtError,hok]
    dsimp only
    by_cases hneg : code<0
    · rw [if_pos hneg]
      refine ⟨first,code,rfl,fun heq => ?_⟩
      have hzero : code=0 := congrArg Prod.snd heq
      omega
    · rw [if_neg hneg]
      have hgets : ∀ st id,∃ result,prvExecGetCommon ex encode st id=.ok result := by
        intro st id
        obtain ⟨next,ret,hv⟩ := get_visible hencode st id
        exact ⟨_,hv.ok⟩
      obtain ⟨⟨last,ret⟩,hlast⟩ := stopAtError_ok hgets first rest
      have hkeep : first.responses<+:last.responses := by
        refine stopAtError_keeps (P:=fun s => first.responses<+:s.responses) ?_
          (List.prefix_refl _) hlast
        intro mid id next ret hp he
        obtain ⟨next',ret',hv⟩ := get_visible hencode mid id
        have hsame := he.symm.trans hv.ok
        cases hsame
        exact hp.trans hv.responses
      refine ⟨last,ret,hlast,fun heq => ?_⟩
      have hback : last.responses=st.responses := congrArg Prod.fst heq
      have hnew : first.responses≠st.responses := hseen.resolve_left hneg
      rw [hback] at hkeep
      exact hnew (hkeep.eq_of_length_le hkept.length_le)

/-- GET commands one after another are executed as the functions for them. -/
theorem execCommand_gets (env : Env) (ex : UspExecutor)
    (hex : ex.decodeCommand=userSettingsProtocolBinaryDecodeCommand) (tail : Mem)
    (st : ExecState) (full : Bool) (ids : List UInt16) :
    stopAtError (execCommand env ex tail) st (ids.map (getCommand full))=
      stopAtError (prvExecGetCommon ex (ex.encodeOf full)) st ids := by
  rw [stopAtError_map]
  congr 1
  funext st id
  exact execCommand_get env ex hex tail st full id

/-- For every store, every list of up to 255 identifiers, every response
buffer size, every behaviour of the transport, both forms and any memory
behind the commands: the client sees the same responses and code from the
LIST SOME command as from the GET commands one after another exactly when at
most 127 identifiers are listed. -/
theorem listSome_eq_gets_iff (env : Env) (respBufferLen : ℕ)
    (writeResponse : List (List UInt8) → List UInt8 → ℤ) (tail : Mem) (st : ExecState)
    (full : Bool) (ids : List UInt16) (h : ids.length≤255) :
    (execCommand env (binaryExecutor respBufferLen writeResponse) tail st
        (listSomeCommand full ids)).outcome=
      (stopAtError (execCommand env (binaryExecutor respBufferLen writeResponse) tail) st
        (ids.map (getCommand full))).outcome ↔ ids.length≤127 := by
  have hencode := encodeOf_ret respBufferLen writeResponse full
  have hbatch := execCommand_listSome env (binaryExecutor respBufferLen writeResponse) rfl tail st
    full h
  have hgets := execCommand_gets env (binaryExecutor respBufferLen writeResponse) rfl tail st
    full ids
  rw [hbatch,hgets]
  constructor
  · intro hsame
    by_contra hmany
    have hsome : ids≠[] := by
      rintro rfl
      exact hmany (Nat.zero_le _)
    obtain ⟨next,ret,hok,hne⟩ := gets_outcome
      hencode st hsome
    rw [hok] at hsame
    by_cases hbig : 128 < ids.length
    · rw [if_pos hbig] at hsame
      cases hsame
    · rw [if_neg hbig,if_pos (by omega)] at hsame
      have hpair : Except.ok (st.responses,0)=Except.ok (ε:=Fault) (next.responses,ret) := hsame
      exact hne (Except.ok.inj hpair).symm
  · intro hfew
    have hsmall : ¬128 < ids.length := by omega
    have hdiff : ¬ids.length=128 := by omega
    rw [if_neg hsmall,if_neg hdiff]

/-- Listing the one setting of a new device twice is getting it twice. -/
theorem listSome_twice_on_device : ∃ start,boot calm (device .u8 0 none none) ∅=.ok start ∧
    (execCommand calm (binaryExecutor 64 fun _ _ => 0) (fun _ => 255) ⟨start,fun _ => 0,[]⟩
        (listSomeCommand true [1,1])).outcome=
      (stopAtError (execCommand calm (binaryExecutor 64 fun _ _ => 0) fun _ => 255)
        ⟨start,fun _ => 0,[]⟩ ([1,1].map (getCommand true))).outcome :=
  ⟨_,rfl,(listSome_eq_gets_iff calm 64 (fun _ _ => 0) (fun _ => 255) _ true [1,1]
    (by decide)).mpr (by decide)⟩

/-- A list of 128 identifiers of the one setting of a new device is executed
as an empty list. -/
theorem listSome_128_unanswered :
    ¬∀ (env : Env) (respBufferLen : ℕ) (writeResponse : List (List UInt8) → List UInt8 → ℤ)
      (tail : Mem) (setup : Setup) (start : World) (full : Bool) (ids : List UInt16),
      boot env setup ∅=.ok start → ids.length≤255 →
      (execCommand env (binaryExecutor respBufferLen writeResponse) tail ⟨start,fun _ => 0,[]⟩
          (listSomeCommand full ids)).outcome=
        (stopAtError (execCommand env (binaryExecutor respBufferLen writeResponse) tail)
          ⟨start,fun _ => 0,[]⟩ (ids.map (getCommand full))).outcome := by
  intro h
  have hb : boot calm (device .u8 0 none none) ∅=.ok _ := rfl
  obtain ⟨ids,hids⟩ : ∃ ids : List UInt16,ids=List.replicate 128 1 := ⟨_,rfl⟩
  have hlength : ids.length=128 := by rw [hids,List.length_replicate]
  have hne : ids≠[] := by
    rintro rfl
    cases hlength
  have hsame := h calm 64 (fun _ _ => 0) (fun _ => 0) _ _ false ids hb (by omega)
  rw [execCommand_gets calm _ rfl,execCommand_listSome calm _ rfl _ _ _ (by omega),
    if_neg (by omega),if_pos hlength] at hsame
  obtain ⟨next,ret,hok,hdiff⟩ := gets_outcome
    (encodeOf_ret 64 (fun _ _ => 0) false) ⟨_,fun _ => 0,[]⟩ hne
  rw [hok] at hsame
  exact hdiff (Except.ok.inj (ε:=Fault) hsame).symm

end UserSettings.Executor
