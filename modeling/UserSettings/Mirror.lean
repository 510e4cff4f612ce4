import UserSettings.Decoding
import UserSettings.Delta
import UserSettings.Format
import UserSettings.Restoring

/-!
# A client that keeps its own table

A client of the binary protocol lists all settings once and afterwards only
watches the codes of its own commands. It never asks again, and restarts of
the device go unnoticed. Its table still is what the device would send.
-/

namespace UserSettings.Mirror

open Bytes Settings Storage Store Effects Setters Reactions Load Records Cells Outcomes Operations
open Transition Binary Executor Device Durability Validity Moves Reload Refinement Refresh
open Listing Format Decoding Ledger StorageUse Delta
open Restoring hiding Settled

/-- The transport of one command with the memory around it. -/
structure Link where
  /-- The length of the response buffer. -/
  respBufferLen : ℕ
  /-- The answer of the transport to a response, after those before it. -/
  writeResponse : List (List UInt8) → List UInt8 → ℤ
  /-- What the response buffer held before. -/
  respBuffer : Mem
  /-- The memory that the command is written to. -/
  tail : Mem

/-- Send a command to a device. -/
def send (env : Env) (w : World) (link : Link) (command : Command) : Executed :=
  execCommand env (binaryExecutor link.respBufferLen link.writeResponse) link.tail
    ⟨w,link.respBuffer,[]⟩ command.bytes

/-- Read responses in the full form, which have nothing behind them. -/
def readAll (responses : List (List UInt8)) : Option (List FullView) :=
  responses.mapM fun bytes =>
    match readFull bytes with
    | some (entry,[]) => some entry
    | some (_,_::_) | none => none

/-- An entry after a SET or SET DEFAULT command was executed. -/
def assigned (isDefault : Bool) (id : UInt16) (value : List UInt8) (entry : FullView) : FullView :=
  if entry.short.id≠id then entry
  else if isDefault then {entry with default := some value}
  else {entry with short := {entry.short with value := some value}}

/-- An entry after a RESTORE command. -/
def restored (entry : FullView) : FullView :=
  if entry.short.value.isSome ∧ entry.default.isSome then
    {entry with short := {entry.short with value := entry.default}}
  else entry

/-- What a client makes of its table when a command was answered with a code. -/
def follow (table : List FullView) (command : Command) (ret : ℤ) : List FullView :=
  match command with
  | .set isDefault id value _ => if ret=0 then table.map (assigned isDefault id value) else table
  | .restore => table.map restored
  | .list _ | .get _ _ | .listSome _ _ _ => table

/-- What happens between the first and the last listing. -/
inductive SessionEvent where
  /-- The client sends a command. -/
  | command (link : Link) (command : Command)
  /-- The device loads its settings again. -/
  | load
  /-- The device loses power and starts. -/
  | reboot

/-- A step of a device and its client; a fault has no next state. The client
sees nothing of loads and reboots. -/
def sessionStep (env : Env) (setup : Setup) (state : World×List FullView) :
    SessionEvent → Option (World×List FullView)
  | .command link command => (send env state.1 link command).toOption.map fun answer =>
    (answer.1.world,follow state.2 command answer.2)
  | .load => (moveStep env setup state.1 .load).map fun next => (next,state.2)
  | .reboot => (moveStep env setup state.1 .reboot).map fun next => (next,state.2)

/-- The client sends RESTORE only when every value in its table has a default. -/
def Careful (state : World×List FullView) : SessionEvent → Prop
  | .command _ .restore => ∀ entry∈state.2,entry.short.value.isSome → entry.default.isSome
  | .command _ _ | .load | .reboot => True

variable {env : Env} {setup : Setup} {w next : World} {s : UserSetting} {link : Link}
variable {last : ExecState} {ret : ℤ} {data : Mem} {len : ℕ} {copy : Copy}

section Tables

/-- The entry of a registered setting with the cells of some copy. -/
def entryOf (copy : Copy) (r : Registration) : FullView :=
  ⟨⟨r.id,r.key,r.type,copy (.value,r.key)⟩,copy (.default,r.key),r.size⟩

/-- The settings as the full form describes them, in registration order. -/
def table (w : World) : List FullView := w.list.items.map fullView

/-- The table shows the copy in RAM. -/
theorem table_eq (w : World) : table w=(registrations w).map (entryOf (ram w)) := by
  unfold table registrations
  rw [List.map_map]
  apply List.map_congr_left
  intro s hs
  have hfound := getByKey_of_mem hs
  have hvalue : ram w (.value,s.key)=content s .value := ram_eq hfound .value
  have hdefault : ram w (.default,s.key)=content s .default := ram_eq hfound .default
  have hentry : entryOf (ram w) (registration s)=
      ⟨⟨s.id,s.key,s.type,ram w (.value,s.key)⟩,ram w (.default,s.key),s.maxSize⟩ := rfl
  rw [Function.comp_apply,hentry,hvalue,hdefault]
  rfl

/-- Devices with the same settings and copies have the same table. -/
theorem table_congr (hregs : registrations next=registrations w)
    (hram : ∀ subtree,subtree≠.changed → ∀ key,ram next (subtree,key)=ram w (subtree,key)) :
    table next=table w := by
  rw [table_eq,table_eq,hregs]
  apply List.map_congr_left
  intro r _
  unfold entryOf
  rw [hram .value (by decide) r.key,hram .default (by decide) r.key]

/-- A change of every entry by what a device does to its setting. -/
theorem table_map {f : FullView → FullView} (hregs : registrations next=registrations w)
    (h : ∀ t∈w.list.items,entryOf (ram next) (registration t)=
      f (entryOf (ram w) (registration t))) : table next=(table w).map f := by
  rw [table_eq,table_eq,hregs,List.map_map]
  apply List.map_congr_left
  intro r hr
  obtain ⟨t,ht,rfl⟩ := List.mem_map.mp hr
  exact h t ht

/-- Writing one cell of a setting changes its entry and no other. -/
theorem table_assigned (isDefault : Bool) {id : UInt16} {value : List UInt8}
    (hs : w.find (.id id)=some s) (hregs : registrations next=registrations w)
    (hram : ∀ subtree,subtree≠.changed → ∀ key,ram next (subtree,key)=
      Function.update (ram w) (if isDefault then .default else .value,s.key) (some value)
        (subtree,key)) :
    table next=(table w).map (assigned isDefault id value) := by
  obtain ⟨hmem,hid⟩ := getById_some hs
  refine table_map hregs fun t ht => ?_
  have hentry : ∀ copy,entryOf copy (registration t)=
    ⟨⟨t.id,t.key,t.type,copy (.value,t.key)⟩,copy (.default,t.key),t.maxSize⟩ := fun _ => rfl
  have hvalue := hram .value (by decide) t.key
  have hdefault := hram .default (by decide) t.key
  rw [hentry,hentry,hvalue,hdefault]
  unfold assigned
  dsimp only
  by_cases hsame : t.id=id
  · have hts : t=s := by
      have hfound : w.find (.id t.id)=some t := getById_of_mem ht
      rw [hsame,hs] at hfound
      exact (Option.some.inj hfound).symm
    subst hts
    rw [if_neg (not_not.mpr hsame)]
    cases isDefault with
    | false => simp
    | true => simp
  · have hkey : t.key≠s.key := by
      intro h
      have hfound := getByKey_of_mem ht
      rw [h,getByKey_of_mem hmem] at hfound
      exact hsame (Option.some.inj hfound ▸ hid)
    have hother : ∀ left right : Subtree,((left,t.key) : Cell)≠(right,s.key) :=
      fun _ _ h => hkey (Prod.mk.inj h).2
    rw [if_pos hsame,Function.update_of_ne (hother _ _),Function.update_of_ne (hother _ _)]

end Tables

section Commands

/-- The bytes of a command that is sent are those in the buffer. -/
theorem holds_sent (tail : Mem) (command : Command) (h : command.bytes.length≤1000) :
    Holds (tail.write 0 command.bytes) (UInt32.ofNat command.bytes.length) command := by
  have hlen : (UInt32.ofNat command.bytes.length).toNat=command.bytes.length :=
    UInt32.toNat_ofNat_of_lt' (by unfold UInt32.size; omega)
  unfold Holds
  rw [hlen]
  exact bytesAt_write_zero tail command.bytes

/-- Commands that read leave the settings alone. -/
theorem send_read {command : Command} (h : send env w link command=.ok (last,ret))
    (hw : command≠.restore)
    (hs : ∀ isDefault id value fits,command≠.set isDefault id value fits) :
    last.world=w := by
  cases command with
  | restore => exact absurd rfl hw
  | set isDefault id value fits => exact absurd rfl (hs isDefault id value fits)
  | list full =>
    have hlist := execCommand_list env (binaryExecutor link.respBufferLen link.writeResponse) rfl
      link.tail ⟨w,link.respBuffer,[]⟩ full
    exact stopAtError_world (fun _ _ _ _ => respond_world) (hlist.symm.trans h)
  | get full id =>
    have hget := execCommand_get env (binaryExecutor link.respBufferLen link.writeResponse) rfl
      link.tail ⟨w,link.respBuffer,[]⟩ full id
    exact get_world (hget.symm.trans h)
  | listSome full ids fits =>
    have hsome := execCommand_listSome env (binaryExecutor link.respBufferLen link.writeResponse)
      rfl link.tail ⟨w,link.respBuffer,[]⟩ full fits
    have hrun := hsome.symm.trans h
    split at hrun
    · cases hrun
    · exact stopAtError_world (fun _ _ _ _ => get_world) hrun

/-- A RESTORE command restores every setting. -/
theorem send_restore (hl : w.isLoaded=true) (h : send env w link .restore=.ok (last,ret)) :
    last.world=forEachSetting (prvSettingsRestore env env.callbacks) w := by
  have hrestore : userSettingsRestoreDefaults env w=
      .ok (forEachSetting (prvSettingsRestore env env.callbacks) w) := if_pos hl
  have hexec : send env w link .restore=_ :=
    execCommand_restore env (binaryExecutor link.respBufferLen link.writeResponse) rfl
      link.tail hrestore
  cases hexec.symm.trans h
  rfl

/-- The call that a SET or SET DEFAULT command makes. -/
def assignCall (isDefault : Bool) (data : Mem) (len : ℕ) : SettingCall :=
  if isDefault then .setDefault data len else .set data len

/-- The code of that call. -/
def assignCode (env : Env) (isDefault : Bool) (w : World) (s : UserSetting) (data : Mem)
    (len : ℕ) : ℤ :=
  if isDefault then (prvUserSettingsSetDefault env env.callbacks w s data len).2
  else (prvUserSettingsSet env env.callbacks w s data len).2

/-- What a SET or SET DEFAULT command does: it makes one call with its bytes if
there is a setting with its identifier. -/
def Assigns (env : Env) (w : World) (isDefault : Bool) (id : UInt16) (data : Mem) (len : ℕ)
    (next : World) (ret : ℤ) : Prop :=
  (w.find (.id id)=none ∧ next=w ∧ ret=-eNoEnt) ∨
    ∃ s,w.isLoaded=true ∧ w.find (.id id)=some s ∧
      next=(assignCall isDefault data len).visit env w s ∧
      ret=if assignCode env isDefault w s data len<0 then -eNoExec else 0

/-- What the two functions of the executor have in common. -/
theorem assigns_of_exec {isDefault : Bool} {id : UInt16} {st : ExecState}
    {set : Except Fault (World×ℤ)}
    (hset : set=withSetting st.world (.id id) fun s =>
      ((assignCall isDefault data len).visit env st.world s,
        assignCode env isDefault st.world s data len))
    (h : (do
      if ←userSettingsExists st.world (.id id) then
        let (w,ret) ← set
        return ({st with world := w},if ret<0 then -eNoExec else 0)
      else return (st,-eNoEnt) : Executed)=.ok (last,ret)) :
    Assigns env st.world isDefault id data len last.world ret := by
  obtain ⟨found,hfound,h⟩ := bind_eq_ok.mp h
  cases found with
  | true =>
    rw [if_pos rfl,hset] at h
    obtain ⟨⟨middle,err⟩,hcall,h⟩ := bind_eq_ok.mp h
    obtain ⟨hl,s,hs,hresult⟩ := withSetting_ok hcall
    cases h
    cases hresult
    exact .inr ⟨s,hl,hs,rfl,rfl⟩
  | false =>
    cases h
    unfold userSettingsExists at hfound
    split at hfound
    · exact .inl ⟨by simpa using Except.ok.inj hfound,rfl,rfl⟩
    · cases hfound

/-- A SET or SET DEFAULT command that is sent makes its call. -/
theorem send_set {isDefault : Bool} {id : UInt16} {value : List UInt8}
    {fits : 1 ≤ value.length ∧ value.length≤255}
    (h : send env w link (.set isDefault id value fits)=.ok (last,ret)) :
    ∃ data,bytesAt data value.length=value ∧
      Assigns env w isDefault id data value.length last.world ret := by
  have hlength : (Command.set isDefault id value fits).bytes.length=4+value.length := by
    change (setCommand isDefault id value).length=_
    unfold setCommand idBytes
    simp only [List.length_cons,List.length_append,List.length_nil]
    omega
  have hsent := decoded_set (holds_sent link.tail (.set isDefault id value fits) (by omega))
  unfold send execCommand uspExecutorParseAndExecute binaryExecutor at h
  dsimp only at h
  revert h hsent
  generalize userSettingsProtocolBinaryDecodeCommand _ _=decoded
  rintro h ⟨hret,htype,hid,hlen,hvalue⟩
  refine ⟨decoded.command.value.mem,hvalue,?_⟩
  rw [←hlen,←hid]
  rw [if_neg (by omega : ¬decoded.ret<0),htype] at h
  split at h
  · cases h
  · cases isDefault with
    | false =>
      have hcall : userSettingsSetWithId env w decoded.command.id decoded.command.value.mem
          decoded.command.valueLen.toNat=withSetting w (.id decoded.command.id) (fun s =>
            ((assignCall false decoded.command.value.mem decoded.command.valueLen.toNat).visit env
                w s,
              assignCode env false w s decoded.command.value.mem decoded.command.valueLen.toNat)) :=
        rfl
      have hexec : prvExecSet env ⟨w,link.respBuffer,[]⟩ decoded.command.id
        decoded.command.value.mem decoded.command.valueLen=.ok (last,ret) := h
      unfold prvExecSet at hexec
      exact assigns_of_exec hcall hexec
    | true =>
      have hcall : userSettingsSetDefaultWithId env w decoded.command.id decoded.command.value.mem
          decoded.command.valueLen.toNat=withSetting w (.id decoded.command.id) (fun s =>
            ((assignCall true decoded.command.value.mem decoded.command.valueLen.toNat).visit env
                w s,
              assignCode env true w s decoded.command.value.mem decoded.command.valueLen.toNat)) :=
        rfl
      have hexec : prvExecSetDefault env ⟨w,link.respBuffer,[]⟩ decoded.command.id
        decoded.command.value.mem decoded.command.valueLen=.ok (last,ret) := h
      unfold prvExecSetDefault at hexec
      exact assigns_of_exec hcall hexec

end Commands

/-- The code of a call tells whether a cell has its bytes now. -/
def Told (w : World) (cell : Cell) (bytes : List UInt8) (next : World) (code : ℤ) : Prop :=
  (code=0 ∧ ∀ subtree,subtree≠.changed → ∀ key,
      ram next (subtree,key)=Function.update (ram w) cell (some bytes) (subtree,key)) ∨
    (code<0 ∧ next=w)

/-- Writing what a cell holds changes nothing. -/
theorem update_same {cell : Cell} (h : copy cell=filled (bytesAt data len)) (hn : 1 ≤ len) :
    Function.update copy cell (some (bytesAt data len))=copy := by
  have hne : bytesAt data len≠[] := by
    intro hnil
    have hzero := bytesAt_eq_nil.mp hnil
    omega
  have hfilled : filled (bytesAt data len)=some (bytesAt data len) := if_neg hne
  rw [←hfilled,←h,Function.update_eq_self]

section Cells

variable (hsave : ∀ n,env.saveResult n=0) (hq : Passive env.callbacks)

include hsave hq

/-- A set call that writes succeeds. -/
theorem set_written (hs : w.getByKey s.key=some s) (hw : Writes s data len) :
    (prvUserSettingsSet env env.callbacks w s data len).2=0 ∧ ∀ subtree,subtree≠.changed → ∀ key,
      ram (prvUserSettingsSet env env.callbacks w s data len).1 (subtree,key)=
        ramSet w s data len (subtree,key) := by
  have hout := set_outcome env hq hs hw
  revert hout
  generalize ram (prvUserSettingsSet env env.callbacks w s data len).1=live
  generalize stored (prvUserSettingsSet env env.callbacks w s data len).1=durable
  generalize (prvUserSettingsSet env env.callbacks w s data len).2=code
  intro hout
  cases hout with
  | valueUnsaved hv => exact absurd (hsave _) hv
  | flagged => exact ⟨rfl,fun _ _ _ => rfl⟩
  | flagUnsaved _ _ hf => exact absurd (hsave _) hf
  | saved =>
    exact ⟨rfl,fun subtree hne key =>
      Function.update_of_ne (cell_ne subtree .changed hne key s.key) ..⟩

/-- The code of a set call. -/
theorem set_told (hs : w.getByKey s.key=some s) (hok : RecordOk s) (hn : 1 ≤ len) :
    Told w (.value,s.key) (bytesAt data len) (prvUserSettingsSet env env.callbacks w s data len).1
      (prvUserSettingsSet env env.callbacks w s data len).2 := by
  have hlive : ramSet w s data len=
      Function.update (ram w) (.value,s.key) (some (bytesAt data len)) := if_neg (by omega)
  by_cases hw : Writes s data len
  · have hwritten := set_written hsave hq hs hw
    exact .inl ⟨hwritten.1,fun subtree hne key =>
      (hwritten.2 subtree hne key).trans (congrFun hlive _)⟩
  · rw [userSettingsSet_keeps hw]
    by_cases hd : SameValue s data len
    · have hle := hok.value.len_le
      have hfit : ¬s.maxSize<len := by
        rw [hd.2]
        omega
      refine .inl ⟨by rw [if_neg hfit,if_pos hd],fun _ _ _ => ?_⟩
      rw [update_same ((sameValue_iff_filled hok hs).mp hd) hn]
    · refine .inr ⟨?_,rfl⟩
      dsimp only
      rw [if_neg hd]
      split <;> decide

omit hq in
/-- The code of a set_default call. -/
theorem setDefault_told (hs : w.getByKey s.key=some s) (hok : RecordOk s) (hn : 1 ≤ len) :
    Told w (.default,s.key) (bytesAt data len)
      (prvUserSettingsSetDefault env env.callbacks w s data len).1
      (prvUserSettingsSetDefault env env.callbacks w s data len).2 := by
  by_cases hw : WritesDefault env s data len
  · have hcells : ram (prvUserSettingsSetDefault env env.callbacks w s data len).1=_ ∧
        stored (prvUserSettingsSetDefault env env.callbacks w s data len).1=_ :=
      setDefault_cells hs hw (by omega)
    refine .inl ⟨?_,fun _ _ _ => by rw [hcells.1]⟩
    rw [userSettingsSetDefault_writes hs hw]
    exact if_pos (hsave _)
  · rw [userSettingsSetDefault_keeps hw]
    by_cases hd : SameDefault s data len
    · refine .inl ⟨if_pos hd,fun _ _ _ => ?_⟩
      rw [update_same ((sameDefault_iff_filled hok hs).mp hd) hn]
    · refine .inr ⟨?_,rfl⟩
      dsimp only
      rw [if_neg hd]
      split
      · decide
      · split <;> decide

/-- The cells of a setting after a restore of it. -/
theorem restore_cells (hs : w.getByKey s.key=some s) (hok : RecordOk s)
    (ha : RecordAccepted s) {subtree : Subtree} (hne : subtree≠.changed) :
    ram (prvSettingsRestore env env.callbacks w s) (subtree,s.key)=
      if subtree=.value ∧ s.isSet=true ∧ s.defaultIsSet=true then some s.defaultValue
      else content s subtree := by
  have hbytes := bytesAt_default hok
  by_cases hwrite : s.isSet=true ∧ Writes s s.defaultData.mem s.defaultDataLen
  · obtain ⟨hset,hw⟩ := hwrite
    rw [restore_eq_set hset,(set_written hsave hq hs hw).2 subtree hne]
    unfold ramSet
    rw [hbytes]
    cases hd : s.defaultIsSet with
    | false =>
      rw [if_pos (hok.default.len_eq_zero hd),if_neg (fun h => by cases h.2.2)]
      exact ram_eq hs subtree
    | true =>
      have hpos : s.defaultDataLen≠0 := (hok.default.isSet_iff.mp hd).ne'
      rw [if_neg hpos]
      by_cases hv : subtree=.value
      · rw [if_pos ⟨hv,hset,rfl⟩,hv,Function.update_self]
      · rw [if_neg (fun h => hv h.1),Function.update_of_ne (cell_ne subtree .value hv s.key s.key)]
        exact ram_eq hs subtree
  · rw [restore_keeps hwrite,ram_eq hs]
    split
    · rename_i hboth
      obtain ⟨rfl,hset,hd⟩ := hboth
      have hvalid : s.validates s.defaultData.mem s.defaultDataLen=true := by
        rw [validates_eq_accepts ha.pure,hbytes]
        exact ha.default hd
      have hsame : SameValue s s.defaultData.mem s.defaultDataLen := by
        by_contra hdiff
        exact hwrite ⟨hset,hok.default.len_le,hdiff,hvalid⟩
      rw [←(restore_differs hok).mp hsame]
      exact if_pos hset
    · rfl

end Cells

section Answers

/-- A LIST FULL command that succeeds sends all settings. -/
theorem send_list (h : send env w link (.list true)=.ok (last,0)) :
    last.responses=w.list.items.map fullBytes := by
  have hlist := execCommand_list env (binaryExecutor link.respBufferLen link.writeResponse) rfl
    link.tail ⟨w,link.respBuffer,[]⟩ true
  have hsent := respond_all link.respBufferLen link.writeResponse true ⟨w,link.respBuffer,[]⟩
    w.list.items
  obtain ⟨part,_,hpart,hall⟩ := sendAll_prefix link.respBufferLen link.writeResponse []
    (w.list.items.map (settingBytes true))
  have hout : (last.responses,(0 : ℤ))=
      sendAll link.respBufferLen link.writeResponse [] (w.list.items.map (settingBytes true)) := by
    have hrun := congrArg Executed.outcome (hlist.symm.trans h)
    exact Except.ok.inj (ε:=Fault) (hrun.symm.trans hsent)
  have hcode : (0 : ℤ)=_ := congrArg Prod.snd hout
  have hsame : last.responses=_ := congrArg Prod.fst hout
  rw [hsame,hpart,hall (le_of_eq hcode),List.nil_append]
  rfl

/-- A GET FULL command that succeeds sends its setting. -/
theorem send_get {id : UInt16} (h : send env w link (.get true id)=.ok (last,0)) :
    ∃ s,w.find (.id id)=some s ∧ last.responses=[fullBytes s] := by
  have hget := execCommand_get env (binaryExecutor link.respBufferLen link.writeResponse) rfl
    link.tail ⟨w,link.respBuffer,[]⟩ true id
  have hrun := hget.symm.trans h
  unfold prvExecGetCommon at hrun
  split at hrun
  · cases hrun
  · rename_i s hs
    obtain ⟨buffer,hrespond⟩ := respond_eq link.respBufferLen link.writeResponse true
      ⟨w,link.respBuffer,[]⟩ s
    rw [hrespond] at hrun
    refine ⟨s,hs,?_⟩
    split at hrun
    · cases hrun
    · have hstate : _=last := congrArg Prod.fst (Except.ok.inj hrun)
      rw [←hstate]
      rfl

/-- Responses with settings are read back. -/
theorem readAll_full {items : List UserSetting}
    (h : ∀ s∈items,RecordOk s ∧ s.maxSize≤255) :
    readAll (items.map fullBytes)=some (items.map fullView) := by
  induction items with
  | nil => rfl
  | cons s rest ih =>
    obtain ⟨hok,hsize⟩ := h s List.mem_cons_self
    have hone := readFull_append hok hsize []
    rw [List.append_nil] at hone
    have hrest := ih fun t ht => h t (List.mem_cons_of_mem _ ht)
    unfold readAll at hrest ⊢
    rw [List.map_cons,List.mapM_cons,hone,hrest]
    rfl

end Answers

/-- A settled device and a client with its table. -/
structure Mirrored (setup : Setup) (state : World×List FullView) : Prop where
  /-- The device answers and its storage is up to date. -/
  settled : Settled setup state.1
  /-- All bytes are accepted. -/
  accepted : StoreAccepted setup state.1
  /-- The client has the table of the device. -/
  shown : state.2=table state.1

section Sessions

variable (hsave : ∀ n,env.saveResult n=0) (hq : Passive env.callbacks) (hpure : PureSetup setup)

include hsave hq hpure

/-- A SET or SET DEFAULT command. -/
theorem mirrored_assign {views : List FullView} {isDefault : Bool} {id : UInt16}
    {value : List UInt8} {fits : 1 ≤ value.length ∧ value.length≤255}
    (hw : Mirrored setup (w,views))
    (h : send env w link (.set isDefault id value fits)=.ok (last,ret)) :
    Mirrored setup (last.world,follow views (.set isDefault id value fits) ret) := by
  obtain ⟨hsettled,haccepted,hshown⟩ := hw
  dsimp only at hsettled haccepted hshown
  obtain ⟨data,hdata,hone⟩ := send_set h
  cases hone with
  | inl hnone =>
    obtain ⟨_,hworld,rfl⟩ := hnone
    rw [hworld]
    exact ⟨hsettled,haccepted,hshown⟩
  | inr hsome =>
    obtain ⟨s,hl,hs,hworld,hret⟩ := hsome
    have hfound := getByKey_of_find hs
    have hok := hsettled.serving.running.records.getByKey hfound
    have hmove : moveStep env setup w (.call (.id id) (assignCall isDefault data value.length))=
        some last.world := moveStep_call.mpr ⟨hl,s,hs,hworld⟩
    have hwrites : WritesSomething env w
        (.call (.id id) (assignCall isDefault data value.length)) := by
      intro t _ _ hlose
      cases isDefault with
      | false => exact absurd hlose.1 (by omega)
      | true => exact absurd hlose.1 (by omega)
    have htold : Told w (if isDefault then .default else .value,s.key) value last.world
        (assignCode env isDefault w s data value.length) := by
      rw [hworld]
      cases isDefault with
      | false =>
        have hcall : Told w _ (bytesAt data value.length) _ _ :=
          set_told hsave hq hfound hok fits.1
        rwa [hdata] at hcall
      | true =>
        have hcall : Told w _ (bytesAt data value.length) _ _ :=
          setDefault_told hsave hfound hok fits.1
        rwa [hdata] at hcall
    refine ⟨settled_move hsave hq hsettled hwrites hmove,
      storeAccepted_move hq hpure hsettled haccepted hmove,?_⟩
    have hfollow : ∀ code,follow (table w) (.set isDefault id value fits) code=
      if code=0 then (table w).map (assigned isDefault id value) else table w := fun _ => rfl
    dsimp only
    rw [hshown,hfollow]
    cases htold with
    | inl hdone =>
      rw [hdone.1,if_neg (lt_irrefl _)] at hret
      rw [if_pos hret]
      exact (table_assigned isDefault hs (call_effects hmove).sameSetup.regs hdone.2).symm
    | inr hrefused =>
      rw [if_pos hrefused.1] at hret
      rw [hret,if_neg (by decide),hrefused.2]

omit hpure in
/-- A RESTORE command. -/
theorem mirrored_restore {views : List FullView} (hw : Mirrored setup (w,views))
    (hcareful : ∀ entry∈views,entry.short.value.isSome → entry.default.isSome)
    (h : send env w link .restore=.ok (last,ret)) :
    Mirrored setup (last.world,follow views .restore ret) := by
  obtain ⟨hsettled,haccepted,hshown⟩ := hw
  dsimp only at hsettled haccepted hshown
  subst hshown
  have hrunning := hsettled.serving.running
  have hworld := send_restore hrunning.isLoaded h
  have hstep : Operations.step env w .restoreDefaults=some last.world := by
    rw [step_eq,if_pos hrunning.isLoaded,hworld]
    rfl
  have heffects := step_checked hq hstep
  have hkeeps : NoEmptyWrite env w .restoreDefaults := by
    rintro t ht _ ⟨hset,hnone,_⟩
    have hdefault := hcareful (fullView t) (List.mem_map_of_mem (getByKey_some ht).1)
    unfold fullView shortView at hdefault
    rw [hset,hnone] at hdefault
    exact absurd (hdefault rfl) (by simp)
  refine ⟨⟨hsettled.serving.effects heffects,?_⟩,
    storeAccepted_effects heffects haccepted,?_⟩
  · exact (step_agree_iff hq hsave hrunning hsettled.agree .restoreDefaults).mpr hkeeps _ hstep
  · refine (table_map heffects.sameSetup.regs fun t ht => ?_).symm
    have hfound : w.getByKey t.key=some t := getByKey_of_mem ht
    obtain ⟨u,_,hu,hend⟩ := forEachSetting_at (f:=prvSettingsRestore env env.callbacks)
      (fun _ _ hx => onlyAt_restore hq hx) hfound
    have hcells : ∀ subtree,subtree≠.changed → ram last.world (subtree,t.key)=
        if subtree=.value ∧ t.isSet=true ∧ t.defaultIsSet=true then some t.defaultValue
        else content t subtree := by
      intro subtree hne
      rw [hworld,(hend.cells subtree).1]
      exact restore_cells hsave hq hu (hrunning.records t ht) (haccepted.records t ht) hne
    have hentry : ∀ copy,entryOf copy (registration t)=
      ⟨⟨t.id,t.key,t.type,copy (.value,t.key)⟩,copy (.default,t.key),t.maxSize⟩ := fun _ => rfl
    have hvalue : ram w (.value,t.key)=if t.isSet then some t.value else none := ram_eq hfound _
    have hdefault : ram w (.default,t.key)=
      if t.defaultIsSet then some t.defaultValue else none := ram_eq hfound _
    rw [hentry,hentry,hcells .value (by decide),hcells .default (by decide),hvalue,hdefault]
    unfold restored content
    cases t.isSet <;> cases t.defaultIsSet <;> rfl

/-- A load or a start. -/
theorem mirrored_unnoticed {views : List FullView} (hw : Mirrored setup (w,views)) {move : Move}
    (hmove : move=.load ∨ move=.reboot) (h : moveStep env setup w move=some next) :
    Mirrored setup (next,views) := by
  have hcall : ∀ target call,move≠.call target call := by
    rintro target call rfl
    cases hmove with
    | inl h => cases h
    | inr h => cases h
  have hwrites : WritesSomething env w move := by
    rcases hmove with rfl|rfl <;> trivial
  obtain ⟨hregs,hram,_⟩ := unnoticed hq hw.settled hcall h
  refine ⟨settled_move hsave hq hw.settled hwrites h,
    storeAccepted_move hq hpure hw.settled hw.accepted h,?_⟩
  exact hw.shown.trans (table_congr hregs fun _ _ _ => congrFun hram _).symm

/-- A step of a session keeps the table of the client that of the device. -/
theorem mirrored_step {state after : World×List FullView} {event : SessionEvent}
    (hw : Mirrored setup state) (hc : Careful state event)
    (h : sessionStep env setup state event=some after) : Mirrored setup after := by
  obtain ⟨w,views⟩ := state
  cases event with
  | command link command =>
    obtain ⟨answer,hsend,rfl⟩ := Option.map_eq_some_iff.mp h
    have hrun : send env w link command=.ok (answer.1,answer.2) := toOption_eq_some.mp hsend
    cases command with
    | set isDefault id value fits => exact mirrored_assign hsave hq hpure hw hrun
    | restore => exact mirrored_restore hsave hq hw hc hrun
    | list full | get full id | listSome full ids fits =>
      have hworld := send_read hrun (fun h => by cases h) (fun _ _ _ _ h => by cases h)
      rw [hworld]
      exact hw
  | load =>
    obtain ⟨next,hmove,rfl⟩ := Option.map_eq_some_iff.mp h
    exact mirrored_unnoticed hsave hq hpure hw (.inl rfl) hmove
  | reboot =>
    obtain ⟨next,hmove,rfl⟩ := Option.map_eq_some_iff.mp h
    exact mirrored_unnoticed hsave hq hpure hw (.inr rfl) hmove

end Sessions

/-- For every device with storage that does not fail, callbacks that only look
and settings of at most 255 bytes, in every state that runs without deleting
entries reach: what LIST FULL sends can be read, and a client that folds the
codes of its own SET, SET DEFAULT and RESTORE commands into it, and sends
RESTORE only when all its values have defaults, has after any commands, loads
and reboots exactly the table that LIST FULL sends then, and the entry that GET
FULL sends. -/
theorem client_mirrors_device (env : Env) (hsave : ∀ n,env.saveResult n=0)
    (hquiet : ∀ n,env.react n=[]) (setup : Setup) (hpure : PureSetup setup)
    (hsize : ∀ r∈registered setup,r.size≤255) (nvs : Entries)
    (haccepted : StoredAccepted setup nvs) (start w : World) (earlier : List Action)
    (hboot : boot env setup nvs=.ok start)
    (hrun : run (actionStep env setup) start earlier=some w)
    (hwrites : Meets (moveStep env setup) (WritesSomething env) start
      (allMoves env setup start earlier))
    (first : Link) (listed : ExecState) (hfirst : send env w first (.list true)=.ok (listed,0)) :
    ∃ views,readAll listed.responses=some views ∧
      ∀ events v mirror,run (sessionStep env setup) (w,views) events=some (v,mirror) →
        Meets (sessionStep env setup) Careful (w,views) events →
        (∀ link answer,send env v link (.list true)=.ok (answer,0) →
          readAll answer.responses=some mirror) ∧
        ∀ link id answer,send env v link (.get true id)=.ok (answer,0) →
          ∃ entry∈mirror,entry.short.id=id ∧ readAll answer.responses=some [entry] := by
  have hq := passive_callbacks hquiet
  have hb := reboot_ok hboot
  have hmiddle : Settled setup w ∧ StoreAccepted setup w :=
    run_invariant (I:=fun u => Settled setup u ∧ StoreAccepted setup u)
      (fun _ _ _ hu hc hs => ⟨settled_move hsave hq hu.1 hc hs,
        storeAccepted_move hq hpure hu.1 hu.2 hs⟩)
      ⟨settled_of_booted hb,storeAccepted_booted hpure haccepted hb⟩ hwrites (run_allMoves hrun)
  have hread : ∀ u,Settled setup u → ∀ s∈u.list.items,RecordOk s ∧ s.maxSize≤255 := by
    intro u hu s hs
    have hreg : registration s∈registered setup :=
      hu.serving.running.regs ▸ List.mem_map_of_mem hs
    exact ⟨hu.serving.running.records s hs,hsize _ hreg⟩
  refine ⟨table w,?_,?_⟩
  · rw [send_list hfirst]
    exact readAll_full (hread w hmiddle.1)
  · intro events v mirror hsession hcareful
    have hend : Mirrored setup (v,mirror) :=
      run_invariant (fun _ _ _ hu hc hs => mirrored_step hsave hq hpure hu hc hs)
        ⟨hmiddle.1,hmiddle.2,rfl⟩ hcareful hsession
    have hshown : mirror=table v := hend.shown
    refine ⟨fun link answer h => ?_,fun link id answer h => ?_⟩
    · rw [send_list h,hshown]
      exact readAll_full (hread v hend.settled)
    · obtain ⟨s,hs,hsent⟩ := send_get h
      obtain ⟨hmem,hid⟩ := getById_some hs
      rw [hsent,hshown]
      exact ⟨fullView s,List.mem_map_of_mem hmem,hid,
        readAll_full fun t ht => List.mem_singleton.mp ht ▸ hread v hend.settled s hmem⟩

/-- A client sets a default and a value, misses a reboot and restores. -/
theorem client_mirrors_device_with_setting :
    ∃ start first listed views events v mirror,boot calm (device .u8 0 none none) ∅=.ok start ∧
      send calm start first (.list true)=.ok (listed,0) ∧
      readAll listed.responses=some views ∧
      run (sessionStep calm (device .u8 0 none none)) (start,views) events=some (v,mirror) ∧
      mirror=[⟨⟨1,keyA,.u8,some [3]⟩,some [3],1⟩] ∧
      ∀ link answer,send calm v link (.list true)=.ok (answer,0) →
        readAll answer.responses=some mirror := by
  let link : Link := ⟨64,fun _ _ => 0,fun _ => 0,fun _ => 255⟩
  let events : List SessionEvent := [.command link (.set true 1 [3] (by decide)),
    .command link (.set false 1 [7] (by decide)),.reboot,.command link .restore]
  let step := sessionStep calm (device .u8 0 none none)
  have hdevice : ∃ start listed a b c v,boot calm (device .u8 0 none none) ∅=.ok start ∧
      send calm start link (.list true)=.ok (listed,0) ∧
      readAll listed.responses=some [⟨⟨1,keyA,.u8,none⟩,none,1⟩] ∧
      step (start,[⟨⟨1,keyA,.u8,none⟩,none,1⟩]) (.command link (.set true 1 [3] (by decide)))=
        some a ∧
      step a (.command link (.set false 1 [7] (by decide)))=some b ∧
      step b .reboot=some (c,[⟨⟨1,keyA,.u8,some [7]⟩,some [3],1⟩]) ∧
      step (c,[⟨⟨1,keyA,.u8,some [7]⟩,some [3],1⟩]) (.command link .restore)=
        some (v,[⟨⟨1,keyA,.u8,some [3]⟩,some [3],1⟩]) :=
    ⟨_,_,_,_,_,_,rfl,rfl,rfl,rfl,rfl,rfl,rfl⟩
  obtain ⟨start,listed,a,b,c,v,hboot,hfirst,hread,ha,hb,hc,hd⟩ := hdevice
  have hrun : run step (start,[⟨⟨1,keyA,.u8,none⟩,none,1⟩]) events=
      some (v,[⟨⟨1,keyA,.u8,some [3]⟩,some [3],1⟩]) :=
    run_cons.mpr ⟨a,ha,run_cons.mpr ⟨b,hb,run_cons.mpr ⟨_,hc,run_cons.mpr ⟨_,hd,rfl⟩⟩⟩⟩
  obtain ⟨views,hviews,hall⟩ := client_mirrors_device calm (fun _ => rfl) (fun _ => rfl)
    (device .u8 0 none none) (pure_device .u8 0) (by decide) ∅
    (storedAccepted_empty _) start start [] hboot rfl trivial link listed hfirst
  cases hviews.symm.trans hread
  have hcareful : Meets step Careful (start,[⟨⟨1,keyA,.u8,none⟩,none,1⟩]) events := by
    refine ⟨trivial,fun x hx => ?_⟩
    cases ha.symm.trans hx
    refine ⟨trivial,fun x hx => ?_⟩
    cases hb.symm.trans hx
    refine ⟨trivial,fun x hx => ?_⟩
    cases hc.symm.trans hx
    refine ⟨fun entry hentry _ => ?_,fun _ _ => trivial⟩
    rw [List.mem_singleton.mp hentry]
    rfl
  have hshown := (hall events v _ hrun hcareful).1
  exact ⟨start,link,listed,_,events,v,_,hboot,hfirst,hread,hrun,rfl,hshown⟩

end UserSettings.Mirror
