import UserSettings.Settings
import Mathlib.Data.List.AList

/-!
# Names, entries and read callbacks of the settings subsystem

Persistent storage maps printed names to byte strings. The library registers
one handler for each of three name prefixes; the subsystem routes a name to
the handler whose prefix it starts with and passes on the rest as the key.
The name buffer of the callers holds names of the length the subsystem
allows and is not modelled. Saving zero bytes deletes an entry.
-/

namespace UserSettings.Storage

open Bytes Settings

/-- The three subtrees of settings names with a registered handler. -/
inductive Subtree where
  /-- Default values. -/
  | default
  /-- Set values. -/
  | value
  /-- Changed flags. -/
  | changed
  deriving DecidableEq

/-- The prefix under which the handler of a subtree is registered. -/
def Subtree.handlerName : Subtree → List UInt8
  | .default => CString.ascii ['u','s','e','r','_','d','e','f','a','u','l','t']
  | .value => CString.ascii ['u','s','e','r']
  | .changed => CString.ascii ['u','s','e','r','_','c','h','a','n','g','e','d']

/-- The separator between prefix and key. -/
def separator : UInt8 := 47

/-- No handler prefix contains a terminator. -/
theorem handlerName_noNul (subtree : Subtree) : (0 : UInt8)∉subtree.handlerName := by
  cases subtree <;> decide

/-- The name printed by sprintf from a prefix and the key of a setting. -/
def keyWithPrefix (subtree : Subtree) (key : CString) : CString where
  bytes := subtree.handlerName++separator::key.bytes
  noNul := by
    have hs : (0 : UInt8)≠separator := by decide
    simp only [List.mem_append,List.mem_cons,not_or]
    exact ⟨handlerName_noNul subtree,hs,key.noNul⟩

/-- The key of a name that starts with the prefix of a subtree. -/
def keyAfterPrefix (subtree : Subtree) (name : CString) : Option CString :=
  match h : name.bytes.dropPrefix? (subtree.handlerName++[separator]) with
  | none => none
  | some rest => some ⟨rest,by
      obtain ⟨p,hp,_⟩ := List.dropPrefix?_eq_some_iff.mp h
      have hn := name.noNul
      rw [hp] at hn
      exact fun hr => hn (List.mem_append_right p hr)⟩

/-- The handler a name is routed to, and the key it is called with. -/
def settingsParseAndLookup (name : CString) : Option (Subtree×CString) :=
  [Subtree.default,.value,.changed].findSome? fun subtree =>
    (keyAfterPrefix subtree name).map fun key => (subtree,key)

/-- A prefix is taken off exactly the names printed with it. -/
theorem keyAfterPrefix_eq_some {subtree : Subtree} {name key : CString} :
    keyAfterPrefix subtree name=some key ↔ name=keyWithPrefix subtree key := by
  unfold keyAfterPrefix
  constructor
  · intro h
    split at h
    · cases h
    · rename_i rest hr
      cases h
      obtain ⟨p,hp,he⟩ := List.dropPrefix?_eq_some_iff.mp hr
      apply CString.ext
      refine hp.trans ?_
      rw [eq_of_beq he]
      simp only [keyWithPrefix,List.append_assoc,List.singleton_append]
  · rintro rfl
    have hd : (keyWithPrefix subtree key).bytes.dropPrefix? (subtree.handlerName++[separator])=
        some key.bytes := by
      apply List.dropPrefix?_eq_some_iff.mpr
      refine ⟨subtree.handlerName++[separator],?_,beq_self_eq_true _⟩
      simp only [keyWithPrefix,List.append_assoc,List.singleton_append]
    split
    · rename_i hn
      rw [hd] at hn
      cases hn
    · rename_i rest hr
      rw [hd] at hr
      cases hr
      rfl

/-- Printed names differ as soon as subtree or key differ. -/
theorem keyWithPrefix_inj {left right : Subtree} {key other : CString} :
    keyWithPrefix left key=keyWithPrefix right other ↔ left=right ∧ key=other := by
  constructor
  · intro h
    have hb := congrArg CString.bytes h
    cases left <;> cases right <;>
      simp [keyWithPrefix,Subtree.handlerName,CString.ascii,separator] at hb <;>
      exact ⟨rfl,CString.ext hb⟩
  · rintro ⟨rfl,rfl⟩
    rfl

/-- Every printed name is routed to its own handler with its own key. -/
@[simp] theorem settingsParseAndLookup_keyWithPrefix (subtree : Subtree) (key : CString) :
    settingsParseAndLookup (keyWithPrefix subtree key)=some (subtree,key) := by
  have hself : keyAfterPrefix subtree (keyWithPrefix subtree key)=some key :=
    keyAfterPrefix_eq_some.mpr rfl
  have hother : ∀ other,other≠subtree →
      keyAfterPrefix other (keyWithPrefix subtree key)=none := by
    intro other hne
    cases hk : keyAfterPrefix other (keyWithPrefix subtree key) with
    | none => rfl
    | some k => exact absurd (keyWithPrefix_inj.mp (keyAfterPrefix_eq_some.mp hk)).1.symm hne
  unfold settingsParseAndLookup
  cases subtree with
  | default => simp [List.findSome?,hself]
  | value => simp [List.findSome?,hself,hother .default (by decide)]
  | changed =>
    simp [List.findSome?,hself,hother .default (by decide),hother .value (by decide)]

/-- Only printed names are routed to a handler. -/
theorem settingsParseAndLookup_eq_some {name key : CString} {subtree : Subtree}
    (h : settingsParseAndLookup name=some (subtree,key)) : name=keyWithPrefix subtree key := by
  unfold settingsParseAndLookup at h
  obtain ⟨other,_,ho⟩ := List.exists_of_findSome?_eq_some h
  cases hk : keyAfterPrefix other name with
  | none => simp [hk] at ho
  | some k =>
    simp only [hk,Option.map_some,Option.some.injEq,Prod.mk.injEq] at ho
    rw [keyAfterPrefix_eq_some.mp hk,ho.1,ho.2]

/-- Persistent entries by name. -/
abbrev Entries := AList fun _ : CString => List UInt8

/-- Store bytes under a name; zero bytes delete the entry. -/
def Entries.save (entries : Entries) (name : CString) (bytes : List UInt8) : Entries :=
  if bytes=[] then entries.erase name else entries.insert name bytes

/-- A saved entry is found under its name, all others as before. -/
theorem Entries.lookup_save (entries : Entries) (name other : CString) (bytes : List UInt8) :
    (entries.save name bytes).lookup other=
      if other=name then (if bytes=[] then none else some bytes) else entries.lookup other := by
  unfold Entries.save
  by_cases hb : bytes=[] <;> by_cases ho : other=name
  · rw [if_pos hb,if_pos ho,if_pos hb,ho,AList.lookup_erase]
  · rw [if_pos hb,if_neg ho,AList.lookup_erase_ne ho]
  · rw [if_neg hb,if_pos ho,if_neg hb,ho,AList.lookup_insert]
  · rw [if_neg hb,if_neg ho,AList.lookup_insert_ne ho]

/-- A read callback: from the requested number of bytes it gives an error
code or the bytes it copied. -/
structure ReadCb where
  /-- The result of one call. -/
  read : ℕ → Except ℤ (List UInt8)
  /-- No more than the requested bytes are copied. -/
  bounded : ∀ requested bytes,read requested=.ok bytes → bytes.length ≤ requested

/-- The read callback of settings_runtime_set. -/
def settingsRuntimeReadCb (data : Mem) (len : ℕ) : ReadCb where
  read := fun requested => .ok (bytesAt data (min len requested))
  bounded := by
    intro requested bytes h
    cases h
    simp

/-- The read callback for a stored entry. -/
def storedReadCb (entry : List UInt8) : ReadCb where
  read := fun requested => .ok (entry.take requested)
  bounded := by
    intro requested bytes h
    cases h
    simp

/-- One call of a handler during settings_load_subtree. -/
structure Delivery where
  /-- The name behind the prefix. -/
  key : CString
  /-- The length of the stored entry. -/
  len : ℕ
  /-- The callback that reads it. -/
  readCb : ReadCb

/-- What the backend does in one settings_load_subtree call. -/
structure Loading where
  /-- The handler calls, in the order of enumeration. -/
  deliveries : List Delivery
  /-- The returned error code. -/
  err : ℤ

/-- Enumerate the entries of one subtree, each with its own bytes. -/
def loadingOf (entries : List (Σ _ : CString,List UInt8)) (subtree : Subtree) : Loading where
  deliveries := entries.filterMap fun entry =>
    (keyAfterPrefix subtree entry.1).map fun key => ⟨key,entry.2.length,storedReadCb entry.2⟩
  err := 0

/-- What is delivered are stored entries under their own names. -/
theorem mem_loadingOf {nvs : Entries} {subtree : Subtree} {d : Delivery}
    (h : d∈(loadingOf nvs.entries subtree).deliveries) :
    ∃ entry,nvs.lookup (keyWithPrefix subtree d.key)=some entry ∧
      d=⟨d.key,entry.length,storedReadCb entry⟩ := by
  obtain ⟨item,hmem,hitem⟩ := List.mem_filterMap.mp h
  obtain ⟨key,hkey,rfl⟩ := Option.map_eq_some_iff.mp hitem
  have hname : item.1=keyWithPrefix subtree key := keyAfterPrefix_eq_some.mp hkey
  refine ⟨item.2,?_,rfl⟩
  rw [←hname]
  exact AList.mem_lookup_iff.mpr hmem

end UserSettings.Storage
