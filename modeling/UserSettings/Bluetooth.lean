import UserSettings.Executor
import UserSettings.Transition

/-!
# The Bluetooth service

Commands are written to a characteristic, responses leave as notifications.
The service keeps one connection: enabling replaces it, disabling clears it,
and a write has no part in it. A response so goes to whoever was enabled last.
Subscriptions and the results of notifying are up to the Bluetooth stack.
-/

namespace UserSettings.Bluetooth

open Bytes Settings Storage Store Operations Binary Executor Transition

/-- Error number of the C library: not connected. -/
abbrev eNotConn : ℤ := 128

/-- The size of the response buffer. -/
abbrev respBufferSize : ℕ := 512

/-- An error code of the attribute protocol as a result of a write. -/
def btGattErr (attErr : ℤ) : ℤ := -attErr

/-- What the Bluetooth stack answers, by event and response within it. -/
structure Gatt (Conn : Type) where
  /-- A connection is subscribed to notifications. -/
  isSubscribed : ℕ → ℕ → Conn → Bool
  /-- The result of sending a notification. -/
  notify : ℕ → ℕ → Conn → List UInt8 → ℤ

/-- A notification handed to the stack. -/
structure Notification (Conn : Type) where
  /-- The connection whose write is executed. -/
  writer : Conn
  /-- The connection it is sent to. -/
  receiver : Conn
  /-- The encoded setting. -/
  data : List UInt8

/-- The service with the settings behind it and the connections of the stack. -/
structure UssState (Conn : Type) where
  /-- The store and persistent storage. -/
  world : World
  /-- The response buffer. -/
  respBuffer : Mem
  /-- The connection notifications are sent to, if any. -/
  btConn : Option Conn
  /-- The present connections, each enabled since it connected. -/
  connected : List Conn
  /-- The number of events so far. -/
  events : ℕ
  /-- The notifications so far. -/
  sent : List (Notification Conn)

/-- What happens to the service. -/
inductive UssEvent (Conn : Type) where
  /-- A connection connects and the service is enabled for it. -/
  | enable (conn : Conn)
  /-- A connection disconnects and the service is disabled for it. -/
  | disable (conn : Conn)
  /-- A connection writes to the characteristic. -/
  | write (conn : Conn) (buffer : Mem) (len : UInt16)

variable {Conn : Type}

/-- Send a response as a notification to the kept connection; the connection
it is sent to, if any, and the result. -/
def prvSendNotification (gatt : Gatt Conn) (event : ℕ) (btConn : Option Conn) (position : ℕ)
    (data : List UInt8) : Option Conn×ℤ :=
  match btConn with
  | none => (none,-eNotConn)
  | some conn =>
    if !gatt.isSubscribed event position conn then (none,-eNotConn)
    else if gatt.notify event position conn data<0 then (some conn,-eIo)
    else (some conn,0)

/-- The executor of the service at an event. -/
def prvUspBinaryExecutor (gatt : Gatt Conn) (event : ℕ) (btConn : Option Conn) : UspExecutor :=
  binaryExecutor respBufferSize fun before data =>
    (prvSendNotification gatt event btConn before.length data).2

/-- The notifications among the responses of an execution. -/
def notifications (gatt : Gatt Conn) (event : ℕ) (btConn : Option Conn) (writer : Conn)
    (responses : List (List UInt8)) : List (Notification Conn) :=
  responses.zipIdx.filterMap fun response =>
    (prvSendNotification gatt event btConn response.2 response.1).1.map fun receiver =>
      ⟨writer,receiver,response.1⟩

/-- Execute what a connection has written; the result is the number of bytes
or an error of the attribute protocol. -/
def prvOnReceiveWrite (env : Env) (gatt : Gatt Conn) (st : UssState Conn) (conn : Conn)
    (buffer : Mem) (len : UInt16) : Except Fault (UssState Conn×ℤ) := do
  let (exec,err) ← uspExecutorParseAndExecute env
    (prvUspBinaryExecutor gatt st.events st.btConn) ⟨st.world,st.respBuffer,[]⟩ buffer len.toUInt32
  let next : UssState Conn :=
    { st with
      world := exec.world
      respBuffer := exec.respBuffer
      sent := st.sent++notifications gatt st.events st.btConn conn exec.responses }
  return (next,
    if err=0 then len.toNat
    else if err= -eNoEnt then btGattErr 0x0a
    else if err= -eProto then btGattErr 0x06
    else btGattErr 0x0e)

/-- Enable the service: the connection is kept, whichever was kept before. -/
def btUssEnable (st : UssState Conn) (conn : Conn) : UssState Conn :=
  {st with btConn := some conn}

/-- Disable the service: the kept connection is released, whichever it is. -/
def btUssDisable (st : UssState Conn) (_conn : Conn) : Except Fault (UssState Conn) :=
  match st.btConn with
  | none => .error .nullPointer
  | some _ => .ok {st with btConn := none}

/-- A step of the service: connections are enabled when they connect, disabled
when they disconnect, and write in between. -/
def ussStep [DecidableEq Conn] (env : Env) (gatt : Gatt Conn) (st : UssState Conn)
    (event : UssEvent Conn) : Option (UssState Conn) :=
  let advance (next : UssState Conn) : UssState Conn := {next with events := st.events+1}
  match event with
  | .enable conn =>
    if conn∈st.connected then none
    else some (advance {btUssEnable st conn with connected := conn::st.connected})
  | .disable conn =>
    if conn∈st.connected then
      (btUssDisable st conn).toOption.map fun next =>
        advance {next with connected := st.connected.erase conn}
    else none
  | .write conn buffer len =>
    if conn∈st.connected then
      (prvOnReceiveWrite env gatt st conn buffer len).toOption.map fun result => advance result.1
    else none

/-- The service before any connection. -/
def UssState.start (world : World) (respBuffer : Mem) : UssState Conn :=
  ⟨world,respBuffer,none,[],0,[]⟩

/-- When the responses go where they belong: a write comes from the connection
enabled last, or this one takes no notifications; a connection is disabled
when no other is left. -/
def Exclusive (gatt : Gatt Conn) (st : UssState Conn) : UssEvent Conn → Prop
  | .enable _ => True
  | .disable conn => ∀ other∈st.connected,other=conn
  | .write conn _ _ => ∀ kept,st.btConn=some kept →
      kept=conn ∨ ∀ position,gatt.isSubscribed st.events position kept=false

section Service

variable [DecidableEq Conn]

/-- Whatever a connection writes, all responses are sent to it as long as it is
subscribed. -/
def Answered (env : Env) (gatt : Gatt Conn) (st : UssState Conn) (conn : Conn) : Prop :=
  ∀ buffer len exec err next,
    uspExecutorParseAndExecute env (prvUspBinaryExecutor gatt st.events st.btConn)
      ⟨st.world,st.respBuffer,[]⟩ buffer len.toUInt32=.ok (exec,err) →
    ussStep env gatt st (.write conn buffer len)=some next →
    (∀ position,gatt.isSubscribed st.events position conn=true) →
    next.sent=st.sent++exec.responses.map fun data => ⟨conn,conn,data⟩

/-- Disabling one connection leaves the others answered. -/
def LeavesAnswered (env : Env) (gatt : Gatt Conn) (st : UssState Conn) : UssEvent Conn → Prop
  | .disable conn => ∀ next,ussStep env gatt st (.disable conn)=some next →
      ∀ other∈next.connected,Answered env gatt next other
  | .enable _ | .write _ _ _ => True

end Service

/-- Notifications went to the connections whose writes caused them. -/
structure Directed (st : UssState Conn) : Prop where
  /-- The notifications so far. -/
  sent : ∀ n∈st.sent,n.receiver=n.writer
  /-- No connection is present twice. -/
  nodup : st.connected.Nodup

variable {env : Env} {gatt : Gatt Conn} {st next : UssState Conn} {time : ℕ} {btConn : Option Conn}
  {conn : Conn} {responses : List (List UInt8)}

/-- Notifications go to the kept connection while it is subscribed. -/
theorem mem_notifications {n : Notification Conn}
    (h : n∈notifications gatt time btConn conn responses) :
    n.writer=conn ∧ btConn=some n.receiver ∧
      ∃ position,gatt.isSubscribed time position n.receiver=true := by
  obtain ⟨⟨data,position⟩,_,hn⟩ := List.mem_filterMap.mp h
  obtain ⟨receiver,hr,rfl⟩ := Option.map_eq_some_iff.mp hn
  unfold prvSendNotification at hr
  cases btConn with
  | none => cases hr
  | some kept =>
    dsimp only at hr
    cases hs : gatt.isSubscribed time position kept with
    | false =>
      rw [hs] at hr
      cases hr
    | true =>
      have hkept : some kept=some receiver := by
        simp only [hs,Bool.not_true,Bool.false_eq_true,if_false] at hr
        split at hr <;> exact hr
      cases hkept
      exact ⟨rfl,rfl,position,hs⟩

/-- While the kept connection is subscribed every response is a notification. -/
theorem notifications_subscribed (hs : ∀ position,gatt.isSubscribed time position conn=true) :
    notifications gatt time (some conn) conn responses=
      responses.map fun data => ⟨conn,conn,data⟩ := by
  have hone : ∀ position data,
      (prvSendNotification gatt time (some conn) position data).1=some conn := by
    intro position data
    unfold prvSendNotification
    simp only [hs,Bool.not_true,Bool.false_eq_true,if_false]
    split <;> rfl
  have hfst : responses.zipIdx.map (fun response => Notification.mk conn conn response.1)=
      (responses.zipIdx.map Prod.fst).map fun data => ⟨conn,conn,data⟩ := by
    rw [List.map_map]
    rfl
  unfold notifications
  simp only [hone,Option.map_some]
  rw [List.filterMap_eq_map',hfst,List.zipIdx_map_fst]

section Steps

variable [DecidableEq Conn]

/-- What a write does. -/
theorem ussStep_write {buffer : Mem} {len : UInt16} :
    ussStep env gatt st (.write conn buffer len)=some next ↔ conn∈st.connected ∧
      ∃ exec err,uspExecutorParseAndExecute env (prvUspBinaryExecutor gatt st.events st.btConn)
          ⟨st.world,st.respBuffer,[]⟩ buffer len.toUInt32=.ok (exec,err) ∧
        next={ st with
          world := exec.world
          respBuffer := exec.respBuffer
          events := st.events+1
          sent := st.sent++notifications gatt st.events st.btConn conn exec.responses } := by
  unfold ussStep prvOnReceiveWrite
  dsimp only
  split
  · rename_i hc
    rw [Option.map_eq_some_iff]
    constructor
    · rintro ⟨⟨middle,ret⟩,hrun,rfl⟩
      obtain ⟨⟨exec,err⟩,hexec,h⟩ := bind_eq_ok.mp (toOption_eq_some.mp hrun)
      cases h
      exact ⟨hc,exec,err,hexec,rfl⟩
    · rintro ⟨_,exec,err,hexec,rfl⟩
      exact ⟨_,toOption_eq_some.mpr (bind_eq_ok.mpr ⟨_,hexec,rfl⟩),rfl⟩
  · rename_i hc
    constructor
    · intro h
      cases h
    · exact fun h => absurd h.1 hc

/-- What a connect does: the connection is kept instead of the one before. -/
theorem ussStep_enable (h : ussStep env gatt st (.enable conn)=some next) :
    conn∉st.connected ∧ next.connected=conn::st.connected ∧ next.btConn=some conn ∧
      next.sent=st.sent := by
  unfold ussStep btUssEnable at h
  dsimp only at h
  split at h
  · cases h
  · rename_i hc
    cases h
    exact ⟨hc,rfl,rfl,rfl⟩

/-- What a disconnect does: no connection is kept any more. -/
theorem ussStep_disable (h : ussStep env gatt st (.disable conn)=some next) :
    conn∈st.connected ∧ next.connected=st.connected.erase conn ∧ next.btConn=none ∧
      next.sent=st.sent := by
  unfold ussStep btUssDisable at h
  dsimp only at h
  split at h
  · rename_i hc
    obtain ⟨middle,hrun,rfl⟩ := Option.map_eq_some_iff.mp h
    split at hrun
    · cases hrun
    · cases hrun
      exact ⟨hc,rfl,rfl,rfl⟩
  · cases h

/-- Exclusive steps keep notifications directed. -/
theorem directed_step {event : UssEvent Conn} (hst : Directed st) (he : Exclusive gatt st event)
    (h : ussStep env gatt st event=some next) : Directed next := by
  cases event with
  | enable conn =>
    obtain ⟨hnew,hconnected,_,hsent⟩ := ussStep_enable h
    exact ⟨hsent ▸ hst.sent,hconnected ▸ List.nodup_cons.mpr ⟨hnew,hst.nodup⟩⟩
  | disable conn =>
    obtain ⟨_,hconnected,_,hsent⟩ := ussStep_disable h
    exact ⟨hsent ▸ hst.sent,hconnected ▸ hst.nodup.erase conn⟩
  | write conn buffer len =>
    obtain ⟨_,exec,err,_,rfl⟩ := ussStep_write.mp h
    refine ⟨fun n hn => ?_,hst.nodup⟩
    rcases List.mem_append.mp hn with hold|hnew
    · exact hst.sent n hold
    · obtain ⟨hwriter,hkept,position,hs⟩ := mem_notifications hnew
      rcases he n.receiver hkept with hsame|hsilent
      · rw [hwriter,hsame]
      · rw [hsilent position] at hs
        cases hs

/-- The kept connection is answered. -/
theorem answered_of_kept (h : st.btConn=some conn) : Answered env gatt st conn := by
  intro buffer len exec err next hexec hstep hs
  obtain ⟨_,other,_,hother,rfl⟩ := ussStep_write.mp hstep
  cases hexec.symm.trans hother
  rw [h,notifications_subscribed hs]

/-- A connection that is alone when it is disabled leaves none behind. -/
theorem leavesAnswered_of_exclusive {event : UssEvent Conn} (hst : Directed st)
    (he : Exclusive gatt st event) : LeavesAnswered env gatt st event := by
  cases event with
  | enable | write => trivial
  | disable conn =>
    intro next h other hother
    obtain ⟨_,hconnected,_⟩ := ussStep_disable h
    rw [hconnected] at hother
    have hpresent : other∈st.connected := List.mem_of_mem_erase hother
    rw [he other hpresent] at hother
    exact absurd hother hst.nodup.not_mem_erase

end Steps

/-- For every number of connections, every stack and every settings: in every
run of connects with enable, disconnects with disable and writes, in any
order, in which a connection only writes while it was enabled last (or the
one enabled last takes no notifications) and is only disabled while no other
is left, every notification goes to the connection whose write is executed,
disabling a connection leaves the others answered, and the connection enabled
last is answered. -/
theorem responses_to_writer {Conn : Type} [DecidableEq Conn] (env : Env) (gatt : Gatt Conn)
    (world : World) (respBuffer : Mem) (events : List (UssEvent Conn)) (final : UssState Conn)
    (hexclusive : Meets (ussStep env gatt) (Exclusive gatt) (.start world respBuffer) events)
    (hrun : run (ussStep env gatt) (.start world respBuffer) events=some final) :
    (∀ n∈final.sent,n.receiver=n.writer) ∧
      Meets (ussStep env gatt) (LeavesAnswered env gatt) (.start world respBuffer) events ∧
      ∀ conn,final.btConn=some conn → Answered env gatt final conn := by
  have hstart : Directed (UssState.start world respBuffer : UssState Conn) :=
    ⟨fun _ h => absurd h List.not_mem_nil,List.nodup_nil⟩
  have hstep : Preserves (ussStep env gatt) (Exclusive gatt) Directed :=
    fun _ _ _ hst he h => directed_step hst he h
  have hfinal : Directed final := run_invariant hstep hstart hexclusive hrun
  exact ⟨hfinal.sent,meets_imp hstep (fun _ _ hst he => leavesAnswered_of_exclusive hst he)
    hstart hexclusive,fun _ => answered_of_kept⟩

/-- A stack in which all connections are subscribed. -/
def openGatt : Gatt ℕ := ⟨fun _ _ _ => true,fun _ _ _ _ => 0⟩

/-- One connection after the other reads a setting. -/
theorem responses_to_writer_on_device : ∃ world final,
    boot calm (device .u8 0 none none) ∅=.ok world ∧
      run (ussStep calm openGatt) (.start world fun _ => 0) [.enable 1,
        .write 1 (memOf [1,1,0]) 3,.disable 1,.enable 2,.write 2 (memOf [1,1,0]) 3]=some final ∧
      final.sent.length=2 ∧ ∀ n∈final.sent,n.receiver=n.writer := by
  let events : List (UssEvent ℕ) := [.enable 1,.write 1 (memOf [1,1,0]) 3,.disable 1,
    .enable 2,.write 2 (memOf [1,1,0]) 3]
  have hdevice : ∃ world final,boot calm (device .u8 0 none none) ∅=.ok world ∧
      run (ussStep calm openGatt) (.start world fun _ => 0) events=some final ∧
      final.sent.length=2 := ⟨_,_,rfl,rfl,rfl⟩
  obtain ⟨world,final,hboot,hrun,hlen⟩ := hdevice
  have hexclusive : Meets (ussStep calm openGatt) (Exclusive openGatt)
      (.start world fun _ => 0) events := by
    refine ⟨trivial,fun a ha => ⟨?_,fun b hb => ⟨?_,fun c _ => ⟨trivial,fun d hd =>
      ⟨?_,fun _ _ => trivial⟩⟩⟩⟩⟩
    · intro kept hkept
      rw [(ussStep_enable ha).2.2.1] at hkept
      exact .inl (Option.some.inj hkept).symm
    · intro other hother
      obtain ⟨_,_,_,_,rfl⟩ := ussStep_write.mp hb
      rw [show a.connected=[1] from (ussStep_enable ha).2.1] at hother
      exact List.mem_singleton.mp hother
    · intro kept hkept
      rw [(ussStep_enable hd).2.2.1] at hkept
      exact .inl (Option.some.inj hkept).symm
  exact ⟨world,final,hboot,hrun,hlen,
    (responses_to_writer calm openGatt world _ events final hexclusive hrun).1⟩

/-- The setting that the first connection reads is sent to the second one. -/
theorem response_to_other :
    ¬∀ (env : Env) (setup : Setup) (gatt : Gatt ℕ) (world : World) (respBuffer : Mem)
      (events : List (UssEvent ℕ)) (final : UssState ℕ),boot env setup ∅=.ok world →
      run (ussStep env gatt) (.start world respBuffer) events=some final →
      ∀ n∈final.sent,n.receiver=n.writer := by
  intro h
  have hdevice : ∃ world final n,boot calm (device .u8 0 none none) ∅=.ok world ∧
      run (ussStep calm openGatt) (.start world fun _ => 0) [.enable 1,.enable 2,
        .write 1 (memOf [1,1,0]) 3]=some final ∧ n∈final.sent ∧ n.writer=1 ∧ n.receiver=2 :=
    ⟨_,_,_,rfl,rfl,List.mem_cons_self,rfl,rfl⟩
  obtain ⟨world,final,n,hboot,hrun,hn,hwriter,hreceiver⟩ := hdevice
  have hsame := h calm (device .u8 0 none none) openGatt world _ _ final hboot hrun n hn
  rw [hwriter,hreceiver] at hsame
  cases hsame

end UserSettings.Bluetooth
