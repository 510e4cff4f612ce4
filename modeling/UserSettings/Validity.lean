import UserSettings.Nesting

/-!
# Accepted values

A validate callback that only looks at the bytes it is given judges RAM and
storage alike. Every write to RAM is checked, and what a start loads was
checked when it was stored, as long as the bytes that a call stores are those
it checked: the pointer of a call is read again after its callbacks, which may
have changed what it points to. Where they have not, all values and default
values in both places are accepted in every state of a device.
-/

namespace UserSettings.Validity

open Bytes Settings Storage Store Effects Setters Reactions Load Records Cells Operations Device
open Transition Moves Nesting

/-- The verdict depends on identifier, key and the given bytes only. -/
def PureValidator (validate : ValidateFn) : Prop :=
  ∀ id key left right len,bytesAt left len=bytesAt right len →
    validate id key left len=validate id key right len

/-- All validate callbacks of a setup are pure. -/
def PureSetup (setup : Setup) : Prop :=
  ∀ r∈setup.regs,∀ validate,r.validateCb=some validate → PureValidator validate

/-- The verdict of the validate callback of a setting on some bytes. -/
def accepts (r : Registration) (bytes : List UInt8) : Bool :=
  match r.validateCb with
  | none => true
  | some validate => validate r.id r.key (memOf bytes) bytes.length

/-- Every value and every default value of a setting is accepted, in RAM and
in persistent storage. -/
structure Accepted (w : World) (r : Registration) : Prop where
  /-- The record and its two halves. -/
  ram : ∃ s,w.getByKey r.key=some s ∧ (s.isSet=true → accepts r s.value=true) ∧
    (s.defaultIsSet=true → accepts r s.defaultValue=true)
  /-- The stored value. -/
  value : ∀ entry,w.nvs.lookup (keyWithPrefix .value r.key)=some entry → accepts r entry=true
  /-- The stored default value. -/
  default : ∀ entry,w.nvs.lookup (keyWithPrefix .default r.key)=some entry → accepts r entry=true

/-- A registration with a pure validate callback, if any. -/
def PureRegistration (r : Registration) : Prop :=
  ∀ validate,r.validateCb=some validate → PureValidator validate

/-- A pure verdict on memory is a verdict on its bytes. -/
theorem validates_eq_accepts {s : UserSetting} (hp : PureRegistration (registration s))
    (data : Mem) (len : ℕ) : s.validates data len=accepts (registration s) (bytesAt data len) := by
  unfold UserSetting.validates accepts
  cases hv : s.validateCb with
  | none =>
    have hr : (registration s).validateCb=none := hv
    rw [hr]
  | some validate =>
    have hr : (registration s).validateCb=some validate := hv
    rw [hr]
    dsimp only
    rw [length_bytesAt]
    exact hp validate hr s.id s.key _ _ len (bytesAt_memOf_bytesAt data len).symm

/-- A record whose halves are accepted. -/
structure RecordAccepted (s : UserSetting) : Prop where
  /-- Its validate callback is pure. -/
  pure : PureRegistration (registration s)
  /-- The value. -/
  value : s.isSet=true → accepts (registration s) s.value=true
  /-- The default value. -/
  default : s.defaultIsSet=true → accepts (registration s) s.defaultValue=true

/-- A written value is accepted when its bytes are. -/
theorem recordAccepted_storeValue {s : UserSetting} {bytes : List UInt8} (h : RecordAccepted s)
    (hf : bytes.length ≤ s.maxSize) (ha : accepts (registration s) bytes=true) :
    RecordAccepted ((storeValue bytes).apply s) := by
  refine ⟨h.pure,fun _ => ?_,h.default⟩
  have hv : ((storeValue bytes).apply s).value=bytes := Buffer.take_write hf
  rw [hv]
  exact ha

/-- A written default value is accepted when its bytes are. -/
theorem recordAccepted_storeDefault {s : UserSetting} {bytes : List UInt8} (h : RecordAccepted s)
    (hf : bytes.length ≤ s.maxSize) (ha : accepts (registration s) bytes=true) :
    RecordAccepted ((storeDefault bytes).apply s) := by
  refine ⟨h.pure,h.value,fun _ => ?_⟩
  have hv : ((storeDefault bytes).apply s).defaultValue=bytes := Buffer.take_write hf
  rw [hv]
  exact ha

/-- The entries of all settings are accepted. -/
def StoredAccepted (setup : Setup) (nvs : Entries) : Prop :=
  ∀ r∈registered setup,∀ subtree,subtree≠.changed → ∀ entry,
    nvs.lookup (keyWithPrefix subtree r.key)=some entry → accepts r entry=true

/-- Empty storage has no entry to refuse. -/
theorem storedAccepted_empty (setup : Setup) : StoredAccepted setup ∅ := by
  intro r _ subtree _ entry hlook
  cases hlook

/-- RAM and storage of a device with its setup hold accepted bytes only. -/
structure StoreAccepted (setup : Setup) (w : World) : Prop where
  /-- The setup is registered. -/
  regs : registrations w=registered setup
  /-- All records. -/
  records : AllRecords RecordAccepted w
  /-- All entries. -/
  stored : StoredAccepted setup w.nvs

variable {env : Env} {setup : Setup} {w next : World}

/-- A start from accepted entries. -/
theorem storeAccepted_booted (hpure : PureSetup setup) (hs : StoredAccepted setup w.nvs)
    (h : Booted setup w next) : StoreAccepted setup next := by
  refine ⟨booted_registrations h,?_,h.nvs ▸ hs⟩
  intro s hmem
  rw [h.items] at hmem
  obtain ⟨r,hr,rfl⟩ := List.mem_map.mp hmem
  have hreg : registration (record r)∈registered setup := List.mem_map_of_mem hr
  have hfresh : RecordAccepted (record r) := by
    refine ⟨fun validate hv => hpure r hr validate hv,?_,?_⟩
    · intro hset
      cases hset
    · intro hset
      cases hset
  have hkeep : RecordAccepted (loadRecord w.nvs (record r)) ∧
      registration (loadRecord w.nvs (record r))=registration (record r) := by
    refine loadRecord_keeps (P:=fun s => RecordAccepted s ∧ registration s=registration (record r))
      ?_ ?_ ?_ ⟨hfresh,rfl⟩
    · intro s entry hp hlook _ hf
      have hentry := hs (registration s) (hp.2 ▸ hreg) .value (by decide) entry hlook
      exact ⟨recordAccepted_storeValue hp.1 hf hentry,hp.2⟩
    · intro s entry hp hlook _ hf
      have hentry := hs (registration s) (hp.2 ▸ hreg) .default (by decide) entry hlook
      exact ⟨recordAccepted_storeDefault hp.1 hf hentry,hp.2⟩
    · intro s flag hp
      exact ⟨⟨hp.1.pure,hp.1.value,hp.1.default⟩,hp.2⟩
  exact hkeep.1

/-- A save call leaves accepted entries if it stores accepted bytes. -/
theorem storedAccepted_saveOne {name : CString} {data : Mem} {len : ℕ}
    (hs : StoredAccepted setup w.nvs)
    (hn : ∀ r∈registered setup,∀ subtree,subtree≠.changed → keyWithPrefix subtree r.key=name →
      accepts r (bytesAt data len)=true) :
    StoredAccepted setup (settingsSaveOne env w name data len).1.nvs := by
  intro r hr subtree hne entry hlook
  rw [saveOne_lookup] at hlook
  split at hlook
  · rename_i hname
    split at hlook
    · cases hlook
    · cases hlook
      exact hn r hr subtree hne hname.1
  · exact hs r hr subtree hne entry hlook

/-- Bytes that may be stored unchecked are accepted when others of the same
length are. -/
def JudgesAgain (allow : Allowance) (setup : Setup) : Prop :=
  ∀ s,registration s∈registered setup → ∀ read data len,allow.saved s data len →
    s.validates read len=true → s.validates data len=true

/-- Where nothing may be stored unchecked there are no such bytes. -/
theorem judgesAgain_checked (setup : Setup) : JudgesAgain checkedValue setup :=
  fun _ _ _ _ _ h => h.elim

/-- Every effect keeps all bytes accepted. -/
theorem storeAccepted_effect {allow : Allowance} (hagain : JudgesAgain allow setup)
    (w next : World) (h : StoreAccepted setup w) (he : Effect env allow w next) :
    StoreAccepted setup next := by
  have hrecords : AllRecords RecordAccepted next := by
    refine effect_records ?_ ?_ ?_ w next h.records he
    · intro s data len hp _ hf hv _
      rw [validates_eq_accepts hp.pure] at hv
      exact recordAccepted_storeValue hp (by rw [length_bytesAt]; exact hf) hv
    · intro s data len hp _ hf hv
      rw [validates_eq_accepts hp.pure] at hv
      exact recordAccepted_storeDefault hp (by rw [length_bytesAt]; exact hf) hv
    · exact fun s _ hp => ⟨hp.pure,hp.value,hp.default⟩
  refine ⟨he.sameSetup.regs.trans h.regs,hrecords,?_⟩
  cases he with
  | value => exact h.stored
  | default => exact h.stored
  | flag => exact h.stored
  | notify => exact h.stored
  | @save s subtree data len hs _ _ hv =>
    have hmem : registration s∈registered setup :=
      h.regs ▸ List.mem_map_of_mem (getByKey_some hs).1
    have hvalid : s.validates data len=true := by
      rcases hv with hv|⟨hsaved,read,hread⟩
      · exact hv
      · exact hagain s hmem read data len hsaved hread
    refine storedAccepted_saveOne h.stored ?_
    intro r hr other _ hname
    have hreg := registered_eq h.regs hs hr (keyWithPrefix_inj.mp hname).2
    have hpure := (h.records.getByKey hs).pure
    rw [hreg,←validates_eq_accepts hpure]
    exact hvalid
  | saveFlag key flag =>
    refine storedAccepted_saveOne h.stored ?_
    intro r _ other hne hname
    exact absurd (keyWithPrefix_inj.mp hname).1 hne

/-- Effects that store only what was checked keep all bytes accepted. -/
theorem storeAccepted_effects (h : EffectSeq env checkedValue w next)
    (hw : StoreAccepted setup w) : StoreAccepted setup next :=
  h.invariant (storeAccepted_effect (judgesAgain_checked setup)) hw

/-- A call that stores the bytes it checked keeps all bytes accepted. -/
theorem nests_accepted (env : Env) (setup : Setup) :
    Nests env Steady fun _ w next => StoreAccepted setup w → StoreAccepted setup next where
  refl := fun _ _ h => h
  trans := fun h k hu => k (h hu)
  notify := by
    intro opened w kind s
    have hcalled : EffectSeq env checkedValue w (w.notify kind s) := .single (.notify kind s)
    exact storeAccepted_effects hcalled
  set := by
    intro opened cb w s p len hs hcb hw hsteady hnested haccepted
    have hwritten : StoreAccepted setup (valueWritten cb w s (p w) len) := by
      by_cases hn : len=0
      · unfold valueWritten
        rw [if_pos hn]
        exact haccepted
      · have hvalue : Effect env checkedValue w
            (w.modify s.key (storeValue (bytesAt (p w) len))) :=
          .value hs (Nat.pos_of_ne_zero hn) hw.fits hw.valid trivial
        exact hnested hn (storeAccepted_effects (.single hvalue) haccepted)
    have heffects : EffectSeq env anyValue w (valueWritten cb w s (p w) len) :=
      valueWritten_effects hcb hs hw.fits hw.valid (fun _ => trivial)
    obtain ⟨t,ht,hr⟩ := getByKey_of_registrations heffects.sameSetup.regs hs
    have hkey := key_of_registration hr
    have htk : (valueWritten cb w s (p w) len).getByKey t.key=some t := by rw [hkey,ht]
    have hvalid : t.validates (p w) len=true :=
      (validates_of_registration hr _ len).trans hw.valid
    have hsave : Effect env checkedValue (valueWritten cb w s (p w) len)
        (valueStoredFrom env cb w s p len) := by
      unfold valueStoredFrom
      dsimp only
      have hsame : bytesAt (p (valueWritten cb w s (p w) len)) len=
          bytesAt (p w) len := hsteady
      rw [saveOne_congr hsame,←hkey]
      exact .save htk (by decide) (by rw [maxSize_of_registration hr]; exact hw.fits) (.inl hvalid)
    have hstored := storeAccepted_effects (.single hsave) hwritten
    rw [userSettingsSetFrom_writes hs hw]
    dsimp only
    split
    · exact hstored
    · have hfound : (valueStoredFrom env cb w s p len).getByKey s.key=some t :=
        (saveOne_getByKey ..).trans ht
      rw [deref_eq hfound]
      refine storeAccepted_effects (setChangedRecentlyFlag_effects ?_ true) hstored
      rw [hkey,hfound]

/-- A move whose set calls store what they checked keeps all bytes accepted. -/
theorem storeAccepted_steady (hpure : PureSetup setup) :
    Preserves (moveStep env setup) (MoveMeets Steady env) (StoreAccepted setup) := by
  intro w move next hw hm hs
  cases move with
  | call target call =>
    exact moveCall_rel (nests_accepted env setup)
      (fun _ _ _ hs => storeAccepted_effects (userSettingsSetDefault_effects hs))
      (fun flag _ hs => storeAccepted_effects (setChangedRecentlyFlag_effects hs flag)) hm hs hw
  | load => exact hm.elim
  | reboot => exact storeAccepted_booted hpure hw.stored (reboot_ok (toOption_eq_some.mp hs))

/-- Every value and default value of every setting of the setup is accepted. -/
def AllAccepted (setup : Setup) (w : World) : Prop := ∀ r∈setup.regs,Accepted w r

/-- Accepted records and entries, seen from the settings. -/
theorem StoreAccepted.allAccepted (h : StoreAccepted setup w) : AllAccepted setup w := by
  intro r hr
  have hreg : registration (record r)∈registered setup := List.mem_map_of_mem hr
  refine ⟨?_,h.stored _ hreg .value (by decide),h.stored _ hreg .default (by decide)⟩
  rw [←h.regs] at hreg
  obtain ⟨s,hs,hsame⟩ := List.mem_map.mp hreg
  have hok := h.records s hs
  have hkey : s.key=r.key := congrArg Registration.key hsame
  have haccepts : ∀ bytes,accepts (registration s) bytes=accepts r bytes := by
    intro bytes
    rw [hsame]
    rfl
  exact ⟨s,hkey ▸ getByKey_of_mem hs,fun hset => (haccepts _).symm.trans (hok.value hset),
    fun hset => (haccepts _).symm.trans (hok.default hset)⟩

/-- The set calls of an operation of a device store the bytes they checked. -/
def SteadyOp (env : Env) (setup : Setup) (w : World) (op : DeviceOp) : Prop :=
  ActionMeets Steady env setup w (.device op)

/-- For every device whose storage was empty at first and whose validate
callbacks are pure: along every run of calls (also with pointers to memory that
changes, as that of a getter), imports, commands and reboots, with storage
failing at any time and callbacks that make set calls themselves, in which each
set call that writes, at any depth, finds the bytes that it checked when it
reads them again to store them, every value and default value of every setting
is accepted, in RAM and in storage, after every step. -/
theorem validator_invariant (env : Env) (setup : Setup) (start : World)
    (hpure : PureSetup setup) (hboot : boot env setup ∅=.ok start)
    (steps : List (Pointed DeviceOp))
    (hsteady : Meets (pointedStep env (deviceStep env setup))
      (PointedMeets Steady env (SteadyOp env setup)) start steps) :
    Always (pointedStep env (deviceStep env setup)) (AllAccepted setup) start steps := by
  have hstart : StoreAccepted setup start :=
    storeAccepted_booted hpure (storedAccepted_empty setup) (reboot_ok hboot)
  have hpres : Preserves (pointedStep env (deviceStep env setup))
      (PointedMeets Steady env (SteadyOp env setup)) (StoreAccepted setup) := by
    refine pointed_preserves ?_ ?_
    · intro w op next hw hm hs
      exact action_preserves (storeAccepted_steady hpure) w (.device op) next hw hm hs
    · intro w target p len next hw hm hs
      exact setFrom_rel (nests_accepted env setup) hm hs hw
  exact always_of_invariant hpres (fun _ h => h.allAccepted) hstart hsteady

/-- Where the callbacks pass data that nothing changes, every state of a device
has all values and default values accepted, whatever else its callbacks do. -/
theorem accepted_of_fixed (henv : GivesFixed env) (hpure : PureSetup setup)
    (h : Reachable env setup ∅ w) : AllAccepted setup w := by
  obtain ⟨start,ops,hboot,hrun⟩ := h
  have hpres : Preserves (actionStep env setup) (ActionMeets Steady env setup)
      (StoreAccepted setup) := action_preserves (storeAccepted_steady hpure)
  refine (run_invariant (C:=SteadyOp env setup) (I:=StoreAccepted setup) ?_ ?_ ?_
    hrun).allAccepted
  · exact fun w op next hw hm hs => hpres w (.device op) next hw hm hs
  · exact storeAccepted_booted hpure (storedAccepted_empty setup) (reboot_ok hboot)
  · exact meets_of_forall (actionMeets_fixed henv setup) start ops

/-- A validate callback that wants all bytes to be small. -/
def atMost (limit : UInt8) : ValidateFn := fun _ _ data len => (bytesAt data len).all (·≤limit)

/-- It only looks at the bytes. -/
theorem atMost_pure (limit : UInt8) : PureValidator (atMost limit) := by
  intro id key left right len h
  unfold atMost
  rw [h]

/-- The key of a second setting. -/
def keyM : CString := ⟨CString.ascii ['m'],by decide⟩

/-- Two byte settings, the first with values up to 10, the second with values up to
5 and a callback. -/
def limited : Setup :=
  ⟨[⟨1,keyA,.u8,0,none,some (atMost 10)⟩,⟨2,keyM,.u8,0,some 0,some (atMost 5)⟩],none⟩

/-- The callback of the second setting sets the first one to 9, once. -/
def setsFirst : Env :=
  ⟨fun _ => 0,true,true,fun n =>
    if n=1 then [.set (.key keyA) (fun _ => memOf [9]) 1 [] []] else []⟩

/-- Both validate callbacks only look at the bytes. -/
theorem limited_pure : PureSetup limited := by
  intro r hr validate hv
  rcases List.mem_cons.mp hr with rfl|hr
  · cases hv
    exact atMost_pure 10
  · rw [List.mem_singleton.mp hr] at hv
    cases hv
    exact atMost_pure 5

/-- The first setting is set to 5, then the second one, whose callback sets the
first one to 9; 7 is refused. After a reboot the first one is 9, which its
callback accepts, and the second one 5. -/
theorem validator_invariant_on_device :
    let steps : List (Pointed DeviceOp) := [.op (.store (.set (.key keyA) (memOf [5]) 1)),
      .op (.store (.set (.key keyM) (memOf [5]) 1)),
      .op (.store (.set (.key keyM) (memOf [7]) 1)),.op .reboot]
    ∃ start final,boot setsFirst limited ∅=.ok start ∧
      run (pointedStep setsFirst (deviceStep setsFirst limited)) start steps=some final ∧
      (final.getByKey keyA).map UserSetting.value=some [9] ∧
      (final.getByKey keyM).map UserSetting.value=some [5] ∧
      Always (pointedStep setsFirst (deviceStep setsFirst limited)) (AllAccepted limited) start
        steps := by
  intro steps
  have hdevice : (boot setsFirst limited ∅).toOption.bind (fun start =>
      (run (pointedStep setsFirst (deviceStep setsFirst limited)) start steps).map fun final =>
        ((final.getByKey keyA).map UserSetting.value,(final.getByKey keyM).map UserSetting.value))=
      some (some [9],some [5]) := by decide +kernel
  obtain ⟨start,hboot,hdevice⟩ := Option.bind_eq_some_iff.mp hdevice
  obtain ⟨final,hrun,hcheck⟩ := Option.map_eq_some_iff.mp hdevice
  obtain ⟨hfirst,hsecond⟩ := Prod.mk.inj hcheck
  have hfixed : GivesFixed setsFirst := by
    intro n
    unfold setsFirst
    dsimp only
    split
    · exact ⟨⟨fun _ _ => rfl,trivial,trivial⟩,trivial⟩
    · trivial
  have hsteady : ∀ (w : World) (op : DeviceOp),SteadyOp setsFirst limited w op :=
    actionMeets_fixed hfixed limited
  exact ⟨start,final,toOption_eq_some.mp hboot,hrun,hfirst,hsecond,
    validator_invariant setsFirst limited start limited_pure (toOption_eq_some.mp hboot) steps
      ⟨hsteady _ _,fun _ _ => ⟨hsteady _ _,fun _ _ => ⟨hsteady _ _,fun _ _ =>
        ⟨hsteady _ _,fun _ _ => trivial⟩⟩⟩⟩⟩

/-- The first setting is set to 5, and the second one to what the getter of the
first one points to: 5 is checked and written to RAM, but by the time the pointer
is read again the callback has set the first one to 9. So 9 is stored, and after a
reboot it is the value, which the callback for values refuses. -/
theorem unchecked_value_stored :
    ¬∀ (env : Env) (setup : Setup) (start : World) (steps : List (Pointed DeviceOp)),
      PureSetup setup → boot env setup ∅=.ok start →
      Always (pointedStep env (deviceStep env setup)) (AllAccepted setup) start steps := by
  intro h
  let steps : List (Pointed DeviceOp) := [.op (.store (.set (.key keyA) (memOf [5]) 1)),
    .setFrom (.key keyM) (valueBehind keyA) 1,.op .reboot]
  have hdevice : (boot setsFirst limited ∅).toOption.bind (fun start =>
      (run (pointedStep setsFirst (deviceStep setsFirst limited)) start steps).bind fun final =>
        (final.getByKey keyM).map fun s => (s.isSet,s.value))=some (true,[9]) := by decide +kernel
  obtain ⟨start,hboot,hdevice⟩ := Option.bind_eq_some_iff.mp hdevice
  obtain ⟨final,hrun,hdevice⟩ := Option.bind_eq_some_iff.mp hdevice
  obtain ⟨s,hs,hcheck⟩ := Option.map_eq_some_iff.mp hdevice
  obtain ⟨hset,hvalue⟩ := Prod.mk.inj hcheck
  have haccepted := h setsFirst limited start steps limited_pure (toOption_eq_some.mp hboot) steps
    final (List.prefix_refl steps) hrun _ (List.mem_cons_of_mem _ List.mem_cons_self)
  obtain ⟨t,ht,hjudged,_⟩ := haccepted.ram
  have hsame : t=s := Option.some.inj (ht.symm.trans hs)
  subst hsame
  have hjudge := hjudged hset
  rw [hvalue] at hjudge
  exact absurd hjudge (by decide)

end UserSettings.Validity
