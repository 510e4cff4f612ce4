import Mathlib.Algebra.Order.Group.Int
import UserSettings.Bluetooth
import UserSettings.Isolation

/-!
# References to Bluetooth connections

The service takes a reference to a connection when it is enabled for it and
drops one when it is disabled, each time for the connection that it keeps then.
So the reference to a connection is not dropped any more when another one has
taken its place, while every notification goes to a connection that is present
and that the service has a reference to. The application has to see to it that
a connection is enabled once, and that none is disabled when none is kept: the
reference of a null pointer would be dropped.
-/

namespace UserSettings.References

open Bytes Settings Storage Store Effects Operations Binary Executor Transition Bluetooth
open Device Isolation

variable {Conn : Type} [DecidableEq Conn]

/-- Take a reference to a connection. -/
def btConnRef (refs : Conn → ℤ) (conn : Conn) : Conn → ℤ :=
  Function.update refs conn (refs conn+1)

/-- Drop a reference to a connection. -/
def btConnUnref (refs : Conn → ℤ) (conn : Conn) : Conn → ℤ :=
  Function.update refs conn (refs conn-1)

/-- The service with the references that it has taken and not dropped. -/
structure Counted (Conn : Type) where
  /-- The service. -/
  service : UssState Conn
  /-- The number of references to each connection. -/
  refs : Conn → ℤ

/-- A step of the service with its references: enabling takes one to the new
connection, disabling drops one to the kept connection. -/
def countedStep (env : Env) (gatt : Gatt Conn) (st : Counted Conn) (event : UssEvent Conn) :
    Option (Counted Conn) :=
  (ussStep env gatt st.service event).map fun next =>
    match event with
    | .enable conn => ⟨next,btConnRef st.refs conn⟩
    | .disable _ =>
      match st.service.btConn with
      | some kept => ⟨next,btConnUnref st.refs kept⟩
      | none => ⟨next,st.refs⟩
    | .write _ _ _ => ⟨next,st.refs⟩

/-- What the application and the stack see to: a connection is enabled when it
connects and disabled when it disconnects, some connection is kept when one is
disabled, and commands are written by present connections, which do not name more
settings than the value array has room for. -/
def Disciplined (st : UssState Conn) : UssEvent Conn → Prop
  | .enable conn => conn∉st.connected
  | .disable conn => conn∈st.connected ∧ st.btConn≠none
  | .write conn buffer len => conn∈st.connected ∧
    ∀ i∈(userSettingsProtocolBinaryDecodeCommand buffer len.toUInt32).writes,i<valueSize

/-- The number of references to a connection that is replaced by an event. -/
def replacedBy (kept : Option Conn) (conn : Conn) : UssEvent Conn → ℤ
  | .enable _ => if kept=some conn then 1 else 0
  | .disable _ | .write _ _ _ => 0

/-- How often another connection takes the place of a connection in a run. -/
def replaced (env : Env) (gatt : Gatt Conn) (conn : Conn) :
    UssState Conn → List (UssEvent Conn) → ℤ
  | _,[] => 0
  | st,event::rest =>
    replacedBy st.btConn conn event+
      match ussStep env gatt st event with
      | none => 0
      | some next => replaced env gatt conn next rest

/-- Each notification that a step sends goes to a connection that is present and
that the service has a reference to. -/
def SendsToHeld (env : Env) (gatt : Gatt Conn) (st : Counted Conn) (event : UssEvent Conn) : Prop :=
  ∀ next,countedStep env gatt st event=some next → ∀ n∈next.service.sent,
    n∈st.service.sent ∨ n.receiver∈st.service.connected ∧ 1 ≤ st.refs n.receiver

/-- The references to a connection besides the one for keeping it. -/
def stray (st : Counted Conn) (conn : Conn) : ℤ :=
  st.refs conn-if st.service.btConn=some conn then 1 else 0

/-- The kept connection is present and has a reference, and commands can be
executed. -/
structure Held (st : Counted Conn) : Prop where
  /-- Settings are loaded. -/
  isLoaded : st.service.world.isLoaded=true
  /-- The kept connection is present. -/
  present : ∀ kept,st.service.btConn=some kept → kept∈st.service.connected
  /-- No connection has less references than it should. -/
  stray : ∀ conn,0 ≤ stray st conn

variable {env : Env} {gatt : Gatt Conn} {st next : Counted Conn} {event : UssEvent Conn}

/-- Replacing does not take references away. -/
theorem replacedBy_nonneg (kept : Option Conn) (conn : Conn)
    (event : UssEvent Conn) : 0 ≤ replacedBy kept conn event := by
  cases event with
  | enable =>
    change 0 ≤ if kept=some conn then (1 : ℤ) else 0
    split
    · exact zero_le_one
    · exact le_refl 0
  | disable | write => exact le_refl 0

/-- A step of the service with its references is one of the service. -/
theorem countedStep_service (h : countedStep env gatt st event=some next) :
    ussStep env gatt st.service event=some next.service := by
  obtain ⟨service,hstep,rfl⟩ := Option.map_eq_some_iff.mp h
  cases event with
  | enable | write => exact hstep
  | disable conn =>
    rw [hstep]
    cases st.service.btConn <;> rfl

/-- A step happens exactly when it is disciplined. -/
theorem countedStep_iff (hl : st.service.world.isLoaded=true) :
    (∃ next,countedStep env gatt st event=some next) ↔ Disciplined st.service event := by
  have hservice : (∃ next,countedStep env gatt st event=some next) ↔
      ∃ next,ussStep env gatt st.service event=some next := by
    constructor
    · rintro ⟨next,h⟩
      exact ⟨_,countedStep_service h⟩
    · rintro ⟨next,h⟩
      exact ⟨_,Option.map_eq_some_iff.mpr ⟨next,h,rfl⟩⟩
  rw [hservice]
  cases event with
  | enable conn =>
    constructor
    · rintro ⟨next,h⟩
      exact (ussStep_enable h).1
    · intro h
      exact ⟨_,if_neg h⟩
  | disable conn =>
    unfold Disciplined ussStep btUssDisable
    dsimp only
    by_cases hc : conn∈st.service.connected
    · rw [if_pos hc]
      cases st.service.btConn with
      | none =>
        refine iff_of_false ?_ fun h => h.2 rfl
        rintro ⟨next,h⟩
        cases h
      | some kept => exact iff_of_true ⟨_,rfl⟩ ⟨hc,Option.some_ne_none kept⟩
    · rw [if_neg hc]
      refine iff_of_false ?_ fun h => hc h.1
      rintro ⟨next,h⟩
      cases h
  | write conn buffer len =>
    constructor
    · rintro ⟨next,h⟩
      obtain ⟨hc,exec,err,hexec,_⟩ := ussStep_write.mp h
      exact ⟨hc,inside_of_executed hexec⟩
    · rintro ⟨hc,hinside⟩
      have hanswers : Answers resultCodes (uspExecutorParseAndExecute env
          (prvUspBinaryExecutor gatt st.service.events st.service.btConn)
          ⟨st.service.world,st.service.respBuffer,[]⟩ buffer len.toUInt32) :=
        parseAndExecute_answers env hl respBufferSize _ hinside
      obtain ⟨exec,err,hexec,_⟩ := hanswers
      exact ⟨_,ussStep_write.mpr ⟨hc,exec,err,hexec,rfl⟩⟩

/-- Settings stay loaded. -/
theorem countedStep_loaded (hl : st.service.world.isLoaded=true)
    (h : countedStep env gatt st event=some next) : next.service.world.isLoaded=true := by
  have hstep := countedStep_service h
  cases event with
  | enable conn =>
    unfold ussStep at hstep
    dsimp only at hstep
    split at hstep
    · cases hstep
    · rw [←Option.some.inj hstep]
      exact hl
  | disable conn =>
    unfold ussStep btUssDisable at hstep
    dsimp only at hstep
    split at hstep
    · obtain ⟨middle,hrun,hnext⟩ := Option.map_eq_some_iff.mp hstep
      rw [←hnext]
      cases hkept : st.service.btConn with
      | none =>
        rw [hkept] at hrun
        cases hrun
      | some kept =>
        rw [hkept] at hrun
        rw [←Option.some.inj hrun]
        exact hl
    · cases hstep
  | write conn buffer len =>
    obtain ⟨_,exec,err,hexec,hnext⟩ := ussStep_write.mp hstep
    rw [hnext]
    exact (parseAndExecute_effects hexec).sameSetup.isLoaded.trans hl

/-- A step leaves a reference behind when it replaces a connection, and only then. -/
theorem stray_step (h : countedStep env gatt st event=some next) (conn : Conn) :
    stray next conn=stray st conn+replacedBy st.service.btConn conn event := by
  obtain ⟨service,hstep,rfl⟩ := Option.map_eq_some_iff.mp h
  unfold stray
  cases event with
  | enable other =>
    obtain ⟨_,_,hkept,_⟩ := ussStep_enable hstep
    unfold replacedBy btConnRef
    dsimp only
    rw [hkept]
    by_cases hc : conn=other
    · rw [hc,Function.update_self,if_pos rfl]
      omega
    · have hne : some other≠some conn := fun he => hc (Option.some.inj he).symm
      rw [Function.update_of_ne hc,if_neg hne]
      omega
  | disable other =>
    obtain ⟨_,_,hnone,_⟩ := ussStep_disable hstep
    unfold replacedBy btConnUnref
    dsimp only
    cases hkept : st.service.btConn with
    | none =>
      -- such a step does not happen: there is nothing to drop
      unfold ussStep btUssDisable at hstep
      rw [hkept] at hstep
      dsimp only at hstep
      split at hstep <;> cases hstep
    | some kept =>
      dsimp only
      rw [hnone]
      by_cases hc : conn=kept
      · rw [hc,Function.update_self,if_pos rfl,if_neg nofun]
        omega
      · have hne : some kept≠some conn := fun he => hc (Option.some.inj he).symm
        rw [Function.update_of_ne hc,if_neg hne,if_neg nofun]
        omega
  | write other buffer len =>
    obtain ⟨_,_,_,_,rfl⟩ := ussStep_write.mp hstep
    exact (add_zero _).symm

/-- A step keeps the kept connection present and held. -/
theorem held_step (hst : Held st) (h : countedStep env gatt st event=some next) : Held next := by
  refine ⟨countedStep_loaded hst.isLoaded h,?_,fun conn => ?_⟩
  · have hstep := countedStep_service h
    intro kept hkept
    cases event with
    | enable conn =>
      obtain ⟨_,hconnected,hnew,_⟩ := ussStep_enable hstep
      rw [hnew] at hkept
      rw [hconnected,←Option.some.inj hkept]
      exact List.mem_cons_self
    | disable conn =>
      rw [(ussStep_disable hstep).2.2.1] at hkept
      cases hkept
    | write conn buffer len =>
      obtain ⟨_,_,_,_,hnext⟩ := ussStep_write.mp hstep
      rw [hnext] at hkept ⊢
      exact hst.present kept hkept
  · rw [stray_step h]
    exact add_nonneg (hst.stray conn) (replacedBy_nonneg _ conn event)

/-- A step sends notifications to the kept connection only. -/
theorem sendsToHeld (hst : Held st) (event : UssEvent Conn) : SendsToHeld env gatt st event := by
  intro next h n hn
  have hstep := countedStep_service h
  cases event with
  | enable conn => exact .inl ((ussStep_enable hstep).2.2.2 ▸ hn)
  | disable conn => exact .inl ((ussStep_disable hstep).2.2.2 ▸ hn)
  | write conn buffer len =>
    obtain ⟨_,exec,err,_,hnext⟩ := ussStep_write.mp hstep
    rw [hnext] at hn
    refine (List.mem_append.mp hn).imp_right fun hnew => ?_
    obtain ⟨_,hkept,_⟩ := mem_notifications hnew
    refine ⟨hst.present _ hkept,?_⟩
    have hstray := hst.stray n.receiver
    unfold stray at hstray
    rw [if_pos hkept] at hstray
    omega

/-- Over a run the references left behind are those of replaced connections. -/
theorem stray_run {events : List (UssEvent Conn)}
    (h : run (countedStep env gatt) st events=some next) (conn : Conn) :
    stray next conn=stray st conn+replaced env gatt conn st.service events := by
  induction events generalizing st with
  | nil =>
    cases h
    exact (add_zero _).symm
  | cons event rest ih =>
    obtain ⟨middle,hone,hrest⟩ := run_cons.mp h
    have hlater := ih hrest
    rw [stray_step hone] at hlater
    unfold replaced
    rw [countedStep_service hone]
    dsimp only
    rw [hlater]
    omega

/-- For every number of connections, every stack, every loaded settings and every
interleaving of connects with enable, disconnects with disable and writes that
keeps the discipline: every event is served, each notification goes to a
connection that is present and that the service has a reference to at that
moment, and the references to a connection that are taken and not dropped are
one while it is kept, and one more for each time that another connection took
its place. -/
theorem references_exact (env : Env) (gatt : Gatt Conn) (world : World)
    (hloaded : world.isLoaded=true) (respBuffer : Mem) (events : List (UssEvent Conn))
    (hdisciplined : Meets (countedStep env gatt) (fun st event => Disciplined st.service event)
      ⟨.start world respBuffer,fun _ => 0⟩ events) :
    ∃ final,run (countedStep env gatt) ⟨.start world respBuffer,fun _ => 0⟩ events=some final ∧
      Meets (countedStep env gatt) (SendsToHeld env gatt) ⟨.start world respBuffer,fun _ => 0⟩
        events ∧
      ∀ conn,final.refs conn=replaced env gatt conn (.start world respBuffer) events+
        if final.service.btConn=some conn then 1 else 0 := by
  have hstart : Held (⟨.start world respBuffer,fun _ => 0⟩ : Counted Conn) :=
    ⟨hloaded,nofun,fun _ => le_refl 0⟩
  have hheld : Preserves (countedStep env gatt) (fun st event => Disciplined st.service event)
      Held := fun _ _ _ hst _ h => held_step hst h
  obtain ⟨final,hrun⟩ := run_of_enabled hheld
    (fun _ _ hst hd => (countedStep_iff hst.isLoaded).mpr hd) hstart hdisciplined
  refine ⟨final,hrun,?_,fun conn => ?_⟩
  · exact meets_imp hheld (fun _ event hst _ => sendsToHeld hst event) hstart hdisciplined
  · have hstray := stray_run hrun conn
    unfold stray at hstray
    dsimp only at hstray
    have hnone : (UssState.start world respBuffer : UssState Conn).btConn≠some conn := nofun
    rw [if_neg hnone] at hstray
    omega

/-- The reference to a replaced connection is left behind. -/
theorem references_exact_overlapping : ∃ world final,
    boot calm (device .u8 0 none none) ∅=.ok world ∧
      run (countedStep calm openGatt) ⟨.start world fun _ => 0,fun _ => 0⟩
        [.enable 1,.enable 2,.write 1 (memOf [1,1,0]) 3,.disable 1]=some final ∧
      final.service.connected=[2] ∧ final.refs 1=1 ∧ final.refs 2=0 := by
  let events : List (UssEvent ℕ) := [.enable 1,.enable 2,.write 1 (memOf [1,1,0]) 3,.disable 1]
  obtain ⟨world,hboot,hloaded⟩ : ∃ world,boot calm (device .u8 0 none none) ∅=.ok world ∧
      world.isLoaded=true := ⟨_,rfl,rfl⟩
  have hdisciplined : Meets (countedStep calm openGatt)
      (fun st event => Disciplined st.service event)
      ⟨.start world fun _ => 0,fun _ => 0⟩ events := by
    refine ⟨List.not_mem_nil,fun a ha => ⟨?_,fun b hb => ⟨?_,fun c hc => ⟨?_,fun _ _ => trivial⟩⟩⟩⟩
    · have hfirst : a.service.connected=[1] := (ussStep_enable (countedStep_service ha)).2.1
      change 2∉a.service.connected
      rw [hfirst]
      decide
    · have hboth : b.service.connected=2::a.service.connected :=
        (ussStep_enable (countedStep_service hb)).2.1
      refine ⟨?_,by decide⟩
      rw [hboth,(ussStep_enable (countedStep_service ha)).2.1]
      exact List.mem_cons_of_mem 2 List.mem_cons_self
    · obtain ⟨_,hboth,hkept,_⟩ := ussStep_enable (countedStep_service hb)
      obtain ⟨_,exec,err,_,hnext⟩ := ussStep_write.mp (countedStep_service hc)
      change 1∈c.service.connected ∧ c.service.btConn≠none
      rw [hnext,hboth,hkept,(ussStep_enable (countedStep_service ha)).2.1]
      exact ⟨List.mem_cons_of_mem 2 List.mem_cons_self,Option.some_ne_none 2⟩
  obtain ⟨final,hrun,_,hrefs⟩ :=
    references_exact calm openGatt world hloaded _ events hdisciplined
  have hshown : ∀ world final,boot calm (device .u8 0 none none) ∅=.ok world →
      run (countedStep calm openGatt) ⟨.start world fun _ => 0,fun _ => 0⟩ events=some final →
      final.service.connected=[2] ∧ final.service.btConn=none ∧
        replaced calm openGatt 1 (.start world fun _ => 0) events=1 ∧
        replaced calm openGatt 2 (.start world fun _ => 0) events=0 := by
    intro world final hboot hrun
    cases hboot
    cases hrun
    exact ⟨rfl,rfl,rfl,rfl⟩
  obtain ⟨hconnected,hnone,hone,htwo⟩ := hshown world final hboot hrun
  refine ⟨world,final,hboot,hrun,hconnected,?_,?_⟩
  · rw [hrefs,hone,hnone]
    rfl
  · rw [hrefs,htwo,hnone]
    rfl

end UserSettings.References
