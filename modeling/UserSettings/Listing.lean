import UserSettings.Executor
import UserSettings.Iteration

/-!
# Listing is getting everything

A LIST command walks over the settings with an iterator context; a GET command
searches for one of them. Both hand the same bytes to the transport, and both
stop where a response does not fit or is not accepted. What the client sees of
either is described by the bytes of the settings alone.
-/

namespace UserSettings.Listing

open Bytes Settings Storage Store Operations Binary Executor Iteration

/-- The loop over the settings: execute for the next item of the iteration and
stop at the first negative code. -/
def forEachNext (list : SettingsList) (exec : ExecState → UserSetting → Executed)
    (st : ExecState) (ctx : UserSettingsIterCtx) : Executed :=
  match _h : (userSettingsListIterNext list ctx).2 with
  | none => .ok (st,0)
  | some us =>
    match exec st us with
    | .error fault => .error fault
    | .ok (next,ret) =>
      if ret<0 then .ok (next,ret)
      else forEachNext list exec next (userSettingsListIterNext list ctx).1
termination_by (pending list ctx).length
decreasing_by exact iterNext_shorter _h

/-- The loop executes for the items that the iteration has still to return. -/
theorem forEachNext_eq (list : SettingsList) (exec : ExecState → UserSetting → Executed)
    (st : ExecState) (ctx : UserSettingsIterCtx) :
    forEachNext list exec st ctx=stopAtError exec st (pending list ctx) := by
  fun_induction forEachNext list exec st ctx with
  | case1 st ctx h =>
    rw [iterNext_result,List.head?_eq_none_iff] at h
    rw [h,stopAtError]
  | case2 st ctx us h fault he =>
    rw [iterNext_result] at h
    obtain ⟨tail,hp⟩ := List.head?_eq_some_iff.mp h
    rw [hp,stopAtError,he]
  | case3 st ctx us h next ret he hneg =>
    rw [iterNext_result] at h
    obtain ⟨tail,hp⟩ := List.head?_eq_some_iff.mp h
    rw [hp,stopAtError,he]
    exact (if_pos hneg).symm
  | case4 st ctx us h next ret he hneg ih =>
    rw [iterNext_result] at h
    obtain ⟨tail,hp⟩ := List.head?_eq_some_iff.mp h
    rw [ih,iterNext_pending,hp,stopAtError,he]
    exact (if_neg hneg).symm

/-- A LIST command is the loop over the iteration from its start. -/
theorem listCommon_eq_loop (ex : UspExecutor) (encode : UserSetting → Mem → ℕ → Mem×ℤ)
    (st : ExecState) : prvExecListCommon ex encode st=
      forEachNext st.world.list (respond ex encode) st userSettingsListIterStart := by
  rw [forEachNext_eq,pending_start]
  rfl

/-- The bytes that describe a setting in one of the two forms. -/
def settingBytes (full : Bool) (s : UserSetting) : List UInt8 :=
  if full then fullBytes s else shortBytes s

/-- Sending byte strings one after another: one that does not fit ends the
stream before it is sent, one that is not accepted ends it afterwards. -/
def sendAll (space : ℕ) (writeResponse : List (List UInt8) → List UInt8 → ℤ) :
    List (List UInt8) → List (List UInt8) → List (List UInt8)×ℤ
  | sent,[] => (sent,0)
  | sent,bytes::rest =>
    if space<bytes.length then (sent,-eNoMem)
    else if writeResponse sent bytes<0 then (sent++[bytes],-eIo)
    else sendAll space writeResponse (sent++[bytes]) rest

/-- What is sent is a first part of the stream, and all of it when no error is
reported. -/
theorem sendAll_prefix (space : ℕ) (writeResponse : List (List UInt8) → List UInt8 → ℤ)
    (sent stream : List (List UInt8)) : ∃ part,part<+:stream ∧
      (sendAll space writeResponse sent stream).1=sent++part ∧
      (0≤(sendAll space writeResponse sent stream).2 → part=stream) := by
  induction stream generalizing sent with
  | nil => exact ⟨[],List.prefix_refl _,(List.append_nil sent).symm,fun _ => rfl⟩
  | cons bytes rest ih =>
    unfold sendAll
    by_cases hspace : space<bytes.length
    · rw [if_pos hspace]
      refine ⟨[],List.nil_prefix,(List.append_nil sent).symm,fun h => ?_⟩
      unfold eNoMem at h
      dsimp only at h
      omega
    · rw [if_neg hspace]
      by_cases hwrite : writeResponse sent bytes<0
      · rw [if_pos hwrite]
        refine ⟨[bytes],List.prefix_append [bytes] rest,rfl,fun h => ?_⟩
        unfold eIo at h
        dsimp only at h
        omega
      · rw [if_neg hwrite]
        obtain ⟨part,hpart,hsent,hall⟩ := ih (sent++[bytes])
        refine ⟨bytes::part,(List.prefix_cons_inj bytes).mpr hpart,?_,fun h => ?_⟩
        · rw [hsent,List.append_assoc]
          rfl
        · rw [hall h]

variable {env : Env} {respBufferLen : ℕ} {writeResponse : List (List UInt8) → List UInt8 → ℤ}

/-- An encoder of the binary protocol puts the bytes of a setting at the start
of the buffer or has no space for them. -/
theorem encodeOf_eq (full : Bool) (s : UserSetting) (buffer : Mem) (len : ℕ) :
    (binaryExecutor respBufferLen writeResponse).encodeOf full s buffer len=
      if len<(settingBytes full s).length then (buffer,-eNoMem)
      else (buffer.write 0 (settingBytes full s),((settingBytes full s).length : ℤ)) := by
  cases full with
  | false => exact encode_eq s buffer len
  | true => exact encodeFull_eq s buffer len

variable (respBufferLen writeResponse) in
/-- A response consists of the bytes of the setting, whatever the buffer held. -/
theorem respond_eq (full : Bool) (st : ExecState) (s : UserSetting) :
    ∃ buffer,respond (binaryExecutor respBufferLen writeResponse)
      ((binaryExecutor respBufferLen writeResponse).encodeOf full) st s=
      if respBufferLen<(settingBytes full s).length then .ok (st,-eNoMem)
      else .ok ({st with
        respBuffer := buffer
        responses := st.responses++[settingBytes full s]},
        if writeResponse st.responses (settingBytes full s)<0 then -eIo else 0) := by
  have hencode : ∀ buffer,(binaryExecutor respBufferLen writeResponse).encodeOf full s buffer
      (binaryExecutor respBufferLen writeResponse).respBufferLen=_ :=
    fun buffer => encodeOf_eq full s buffer respBufferLen
  refine ⟨st.respBuffer.write 0 (settingBytes full s),?_⟩
  unfold respond
  rw [hencode]
  by_cases hspace : respBufferLen<(settingBytes full s).length
  · rw [if_pos hspace,if_pos hspace]
    rfl
  · have hread : bytesAt (st.respBuffer.write 0 (settingBytes full s))
        (settingBytes full s).length=settingBytes full s := by
      have hback := bytesAt_behind_write st.respBuffer [] (settingBytes full s)
      rwa [List.nil_append,List.length_nil,behind_zero] at hback
    have hpos : ¬((settingBytes full s).length : ℤ)<0 := by omega
    rw [if_neg hspace,if_neg hspace]
    dsimp only
    rw [if_neg hpos,Int.toNat_natCast,hread]
    rfl

variable (respBufferLen writeResponse) in
/-- Responding with some settings sends their bytes. -/
theorem respond_all (full : Bool) (st : ExecState) (items : List UserSetting) :
    (stopAtError (respond (binaryExecutor respBufferLen writeResponse)
        ((binaryExecutor respBufferLen writeResponse).encodeOf full)) st items).outcome=
      .ok (sendAll respBufferLen writeResponse st.responses (items.map (settingBytes full))) := by
  induction items generalizing st with
  | nil => rfl
  | cons s rest ih =>
    obtain ⟨buffer,hrespond⟩ := respond_eq respBufferLen writeResponse full st s
    rw [stopAtError,hrespond,List.map_cons,sendAll]
    by_cases hspace : respBufferLen<(settingBytes full s).length
    · rw [if_pos hspace,if_pos hspace]
      rfl
    · rw [if_neg hspace,if_neg hspace]
      by_cases hwrite : writeResponse st.responses (settingBytes full s)<0
      · rw [if_pos hwrite,if_pos hwrite]
        rfl
      · rw [if_neg hwrite,if_neg hwrite]
        exact ih _

/-- A GET command for a registered setting is the response with it. -/
theorem getCommon_eq_respond (ex : UspExecutor) (encode : UserSetting → Mem → ℕ → Mem×ℤ)
    {st : ExecState} {s : UserSetting} (hs : s∈st.world.list.items) :
    prvExecGetCommon ex encode st s.id=respond ex encode st s := by
  unfold prvExecGetCommon
  rw [getById_of_mem hs]

/-- Getting registered settings by their identifiers is responding with them. -/
theorem gets_eq_responds (ex : UspExecutor) (encode : UserSetting → Mem → ℕ → Mem×ℤ)
    {st : ExecState} {items : List UserSetting} (h : ∀ s∈items,s∈st.world.list.items) :
    stopAtError (prvExecGetCommon ex encode) st (items.map UserSetting.id)=
      stopAtError (respond ex encode) st items := by
  induction items generalizing st with
  | nil => rfl
  | cons s rest ih =>
    rw [List.map_cons,stopAtError,stopAtError,getCommon_eq_respond ex encode
      (h s List.mem_cons_self)]
    cases he : respond ex encode st s with
    | error fault => rfl
    | ok result =>
      obtain ⟨next,ret⟩ := result
      have hworld := respond_world he
      have hrest : ∀ t∈rest,t∈next.world.list.items := by
        intro t ht
        rw [hworld]
        exact h t (List.mem_cons_of_mem _ ht)
      dsimp only
      rw [ih hrest]

/-- The documented LIST and LIST FULL commands. -/
def listCommand (full : Bool) : List UInt8 := [if full then 4 else 3]

/-- A LIST command is executed as the function for it. -/
theorem execCommand_list (env : Env) (ex : UspExecutor)
    (hex : ex.decodeCommand=userSettingsProtocolBinaryDecodeCommand) (tail : Mem)
    (st : ExecState) (full : Bool) : execCommand env ex tail st (listCommand full)=
      prvExecListCommon ex (ex.encodeOf full) st := by
  have htype : tail.write 0 (listCommand full) 0=if full then 4 else 3 :=
    write_zero_apply tail _ (Nat.succ_pos _)
  have hne : ¬UInt32.ofNat (listCommand full).length=0 := by
    change ¬(UInt32.ofNat 1=0)
    decide
  unfold execCommand uspExecutorParseAndExecute
  rw [hex]
  unfold userSettingsProtocolBinaryDecodeCommand
  rw [if_neg hne]
  cases full with
  | false =>
    simp only [htype]
    rfl
  | true =>
    simp only [htype]
    rfl

/-- For every store, every size and content of the response buffer, every
behaviour of the transport, both forms and any memory behind the commands: the
client sees the same responses and the same code from the LIST command as from
the GET commands for all registered identifiers in order, up to the first
error. Both are the stream of the settings' own bytes, of which a first part is
sent, and all of it when no error is reported. -/
theorem list_eq_gets (env : Env) (respBufferLen : ℕ)
    (writeResponse : List (List UInt8) → List UInt8 → ℤ) (tail : Mem) (st : ExecState)
    (full : Bool) :
    (execCommand env (binaryExecutor respBufferLen writeResponse) tail st
        (listCommand full)).outcome=
      (stopAtError (execCommand env (binaryExecutor respBufferLen writeResponse) tail) st
        (st.world.list.items.map fun s => getCommand full s.id)).outcome ∧
    ∃ sent ret,(execCommand env (binaryExecutor respBufferLen writeResponse) tail st
        (listCommand full)).outcome=.ok (st.responses++sent,ret) ∧
      (st.responses++sent,ret)=sendAll respBufferLen writeResponse st.responses
        (st.world.list.items.map (settingBytes full)) ∧
      sent<+:st.world.list.items.map (settingBytes full) ∧
      (0 ≤ ret → sent=st.world.list.items.map (settingBytes full)) := by
  have hlist := execCommand_list env (binaryExecutor respBufferLen writeResponse) rfl tail st full
  have hgets := execCommand_gets env (binaryExecutor respBufferLen writeResponse) rfl tail st
    full (st.world.list.items.map UserSetting.id)
  have hids : (st.world.list.items.map fun s => getCommand full s.id)=
      (st.world.list.items.map UserSetting.id).map (getCommand full) := by
    rw [List.map_map]
    rfl
  have hstream := respond_all respBufferLen writeResponse full st st.world.list.items
  obtain ⟨sent,hpart,hsent,hall⟩ := sendAll_prefix respBufferLen writeResponse st.responses
    (st.world.list.items.map (settingBytes full))
  rw [hids,hgets,gets_eq_responds _ _ fun _ hs => hs,hlist]
  refine ⟨rfl,sent,_,?_,?_,hpart,hall⟩
  · rw [←hsent]
    exact hstream
  · rw [←hsent]

end UserSettings.Listing
