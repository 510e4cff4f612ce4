import UserSettings.Readers
import UserSettings.Validity

/-!
# Values of one exact size

Getters hand out a pointer, and readers of integers read the whole space
behind it, also the bytes that a shorter value has left from an older one. The
second macro for validate callbacks accepts one length only. Where it stands
at every setting there are no such bytes, so that all that readers return is
in what can be seen, whatever happened before.
-/

namespace UserSettings.ExactSize

open Bytes Settings Storage Store Effects Load Records Cells Operations Json Device Validity
open Readers

/-- The callback that USER_SETTINGS_VALIDATE_CB_EXACT_SIZE defines. -/
def userSettingsValidateCbExactSize (size : ℕ) : ValidateFn :=
  fun _ _ _ len => if len≠size then false else true

/-- Every setting of a setup has this callback, with its own space; none is a
string. -/
def ExactSetup (setup : Setup) : Prop :=
  ∀ r∈setup.regs,r.type≠.str ∧
    r.validateCb=some (userSettingsValidateCbExactSize (space r))

/-- What is stored for the settings of a setup has their size. -/
def StoredExact (setup : Setup) (nvs : Entries) : Prop :=
  ∀ r∈registered setup,∀ subtree,subtree≠.changed → ∀ entry,
    nvs.lookup (keyWithPrefix subtree r.key)=some entry → entry.length=r.size

variable {env : Env} {setup : Setup} {nvs : Entries} {w : World}

/-- The callback only looks at the length. -/
theorem exactSetup_pure (h : ExactSetup setup) : PureSetup setup := by
  intro r hr validate hv
  rw [(h r hr).2] at hv
  cases hv
  intro id key left right len _
  rfl

/-- It accepts the values that fill the space of their setting. -/
theorem accepts_iff (h : ExactSetup setup) {r : Registration} (hr : r∈registered setup)
    (bytes : List UInt8) : accepts r bytes=true ↔ bytes.length=r.size := by
  obtain ⟨reg,hreg,rfl⟩ := List.mem_map.mp hr
  have hcb : (registration (record reg)).validateCb=
      some (userSettingsValidateCbExactSize (registration (record reg)).size) := (h reg hreg).2
  unfold accepts
  rw [hcb]
  dsimp only [userSettingsValidateCbExactSize]
  split
  · rename_i hne
    exact ⟨fun h => absurd h Bool.false_ne_true,fun heq => absurd heq hne⟩
  · rename_i heq
    exact ⟨fun _ => not_not.mp heq,fun _ => rfl⟩

/-- It judges the bytes that a call stores as it judged those that were written to
RAM, since the length is the same. -/
theorem exactSetup_judges (h : ExactSetup setup) (allow : Allowance) : JudgesAgain allow setup := by
  intro s hs read data len _ hread
  obtain ⟨r,hr,hsame⟩ := List.mem_map.mp hs
  have hcb : r.validateCb=s.validateCb := congrArg Registration.validateCb hsame
  rw [(h r hr).2] at hcb
  unfold UserSetting.validates at hread ⊢
  rw [←hcb] at hread ⊢
  exact hread

/-- In every state of a device all values and default values fill their space. -/
theorem whole_of_reachable (h : ExactSetup setup) (hnvs : StoredExact setup nvs)
    (hw : Reachable env setup nvs w) : AllRecords RecordWhole w := by
  have hstored : StoredAccepted setup nvs := fun r hr subtree hs entry hlook =>
    (accepts_iff h hr entry).mpr (hnvs r hr subtree hs entry hlook)
  have hall : StoreAccepted setup w := by
    refine hw.invariant (P:=StoreAccepted setup) ?_ ?_
      (storeAccepted_effect (exactSetup_judges h _))
    · exact fun v hv => storeAccepted_booted (exactSetup_pure h) hstored hv
    · exact fun u v hu hv => storeAccepted_booted (exactSetup_pure h) hu.stored hv
  intro s hs
  have hreg : registration s∈registered setup := hall.regs ▸ List.mem_map_of_mem hs
  have hstr : s.type≠.str := by
    obtain ⟨r,hr,hsame⟩ := List.mem_map.mp hreg
    have htype : r.type=s.type := congrArg Registration.type hsame
    exact htype ▸ (h r hr).1
  have hok := hall.records s hs
  have hwhole : ∀ {bytes : List UInt8},accepts (registration s) bytes=true →
      Whole s.type s.maxSize bytes := fun haccepts =>
    ⟨fun _ _ => (accepts_iff h hreg _).mp haccepts,fun htype => absurd htype hstr⟩
  exact ⟨fun hset => hwhole (hok.value hset),fun hset => hwhole (hok.default hset)⟩

/-- Where every setting has this callback for its own space and none is a
string: whatever was called on a device since its first start, from entries of
the right sizes, with storage failing at any call, callbacks that set settings
and restarts, and whatever happened on another device with the same setup: if
the same can be seen of their settings, then every reader returns the same on
both. -/
theorem exact_sizes_read_alike (env other : Env) (setup : Setup) (nvs entries : Entries)
    (w v : World) (hexact : ExactSetup setup) (hnvs : StoredExact setup nvs)
    (hw : Reachable env setup nvs w) (hv : Reachable other setup entries v)
    (hviews : views w=views v) (stack stack' : Mem)
    (hprinted : ∀ s∈w.list.items,Printed stack stack' s) : SameReadings stack stack' w v := by
  have hregs : registrations w=registrations v := hw.registered.trans hv.registered.symm
  have hloaded : w.isLoaded=v.isLoaded := hw.isLoaded.trans hv.isLoaded.symm
  have hwhole : AllRecords RecordWhole w := whole_of_reachable hexact hnvs hw
  exact Comparable.sameReadings
    ⟨seen_eq hregs hviews,hw.recordOk,hv.recordOk,hwhole,hloaded⟩ hprinted

/-- A device with a four-byte integer and two bytes that have the callback. -/
def exactDevice : Setup :=
  ⟨[⟨1,keyA,.u32,0,none,some (userSettingsValidateCbExactSize 4)⟩,
    ⟨2,keyB,.bytes,2,none,some (userSettingsValidateCbExactSize 2)⟩],
    none⟩

/-- Both settings were set to other values before, and the integer then to a
single byte without success; on another device they were only set to the last
values. -/
theorem exact_sizes_read_alike_on_device : ∃ w v object,
    Reachable calm exactDevice ∅ w ∧ Reachable calm exactDevice ∅ v ∧
      SameReadings (memOf [7]) (memOf []) w v ∧
      userSettingsGetAllJson (memOf [7]) w=.ok object ∧
      userSettingsGetAllJson (memOf []) v=.ok object := by
  have hexact : ExactSetup exactDevice := by
    intro r hr
    rcases List.mem_cons.mp hr with rfl|hr
    · exact ⟨by decide,rfl⟩
    · rw [List.mem_singleton.mp hr]
      exact ⟨by decide,rfl⟩
  have hempty : StoredExact exactDevice (∅ : Entries) := by
    intro r _ subtree _ entry hlook
    cases hlook
  have hw : Reachable calm exactDevice ∅ _ :=
    ⟨_,[.store (.set (.key keyA) (memOf [1,2,3,4]) 4),.store (.set (.key keyA) (memOf [5]) 1),
      .store (.set (.key keyA) (memOf [9]) 4),.store (.set (.id 2) (memOf [1,2]) 2),
      .store (.set (.id 2) (memOf [3,4]) 2)],rfl,rfl⟩
  have hv : Reachable calm exactDevice ∅ _ :=
    ⟨_,[.store (.set (.key keyA) (memOf [9]) 4),.store (.set (.id 2) (memOf [3,4]) 2)],rfl,rfl⟩
  have hsame := exact_sizes_read_alike _ _ _ _ _ _ _ hexact hempty hw hv (views_eq_of_seen rfl)
    (memOf [7]) (memOf []) fun s hs hbytes => by
      -- the bytes setting is set, so that its digits have an end
      rcases List.mem_cons.mp hs with rfl|hs
      · cases hbytes
      · rw [List.mem_singleton.mp hs]
        exact .inl rfl
  exact ⟨_,_,_,hw,hv,hsame,rfl,hsame.allJson.symm⟩

end UserSettings.ExactSize
