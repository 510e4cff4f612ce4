import UserSettings.Settings

/-!
# Iteration over the settings

A context holds a pointer into the list and knows whether the iteration has
begun. What a context has still to return is a part of the list; every call
takes its first element. Reporting the changed settings takes the first one
whose flag is set.
-/

namespace UserSettings.Iteration

open Bytes Settings

/-- Iterator context for user settings. A node is a position in the list,
which only grows at its end. -/
structure UserSettingsIterCtx where
  /-- The node returned last; none is a null pointer. -/
  iterListNode : Option ℕ
  /-- True until the first call. -/
  iterStart : Bool
  /-- Before the first call there is no node. -/
  startsEmpty : iterStart=true → iterListNode=none

/-- The first node of the list. -/
def sysSlistPeekHead (list : SettingsList) : Option ℕ :=
  if 0<list.items.length then some 0 else none

/-- The node after a node; there is none after a null pointer. -/
def sysSlistPeekNext (list : SettingsList) : Option ℕ → Option ℕ
  | none => none
  | some node => if node+1<list.items.length then some (node+1) else none

/-- Start iteration over the list. -/
def userSettingsListIterStart : UserSettingsIterCtx := ⟨none,true,fun _ => rfl⟩

/-- Get the next item in the list. -/
def userSettingsListIterNext (list : SettingsList) (ctx : UserSettingsIterCtx) :
    UserSettingsIterCtx×Option UserSetting :=
  let next : UserSettingsIterCtx :=
    if h : ctx.iterListNode=none ∧ ctx.iterStart=true then
      ⟨sysSlistPeekHead list,false,fun he => nomatch he⟩
    else
      ⟨sysSlistPeekNext list ctx.iterListNode,ctx.iterStart,
        fun he => absurd ⟨ctx.startsEmpty he,he⟩ h⟩
  (next,next.iterListNode.bind fun node => list.items[node]?)

/-- What a context has still to return. -/
def pending (list : SettingsList) (ctx : UserSettingsIterCtx) : List UserSetting :=
  match ctx.iterListNode with
  | none => if ctx.iterStart then list.items else []
  | some node => list.items.drop (node+1)

variable {list : SettingsList}

/-- A started context has to return the whole list. -/
theorem pending_start : pending list userSettingsListIterStart=list.items := rfl

/-- A call returns the first pending item. -/
theorem iterNext_result (ctx : UserSettingsIterCtx) :
    (userSettingsListIterNext list ctx).2=(pending list ctx).head? := by
  obtain ⟨node,start,hstart⟩ := ctx
  cases start with
  | true =>
    cases hstart rfl
    change (sysSlistPeekHead list).bind _=list.items.head?
    unfold sysSlistPeekHead
    split
    · exact List.head?_eq_getElem?.symm
    · rename_i hempty
      have hnil : list.items=[] := List.length_eq_zero_iff.mp (by omega)
      rw [hnil]
      rfl
  | false =>
    cases node with
    | none => rfl
    | some node =>
      change (sysSlistPeekNext list (some node)).bind _=(list.items.drop (node+1)).head?
      dsimp only [sysSlistPeekNext]
      rw [List.head?_drop]
      split
      · rfl
      · rename_i hlast
        rw [List.getElem?_eq_none (by omega)]
        rfl

/-- A call leaves the other items pending. -/
theorem iterNext_pending (ctx : UserSettingsIterCtx) :
    pending list (userSettingsListIterNext list ctx).1=(pending list ctx).tail := by
  obtain ⟨node,start,hstart⟩ := ctx
  cases start with
  | true =>
    cases hstart rfl
    change (match sysSlistPeekHead list with
      | none => []
      | some node => list.items.drop (node+1))=list.items.tail
    unfold sysSlistPeekHead
    by_cases hp : 0<list.items.length
    · rw [if_pos hp]
      exact List.drop_one
    · have hnil : list.items=[] := List.length_eq_zero_iff.mp (by omega)
      rw [if_neg hp,hnil]
      rfl
  | false =>
    cases node with
    | none => rfl
    | some node =>
      change (match sysSlistPeekNext list (some node) with
        | none => []
        | some node => list.items.drop (node+1))=(list.items.drop (node+1)).tail
      dsimp only [sysSlistPeekNext]
      rw [List.tail_drop]
      by_cases hp : node+1<list.items.length
      · rw [if_pos hp]
      · rw [if_neg hp,List.drop_eq_nil_of_le (by omega)]

/-- A returned item is no longer pending. -/
theorem iterNext_shorter {ctx : UserSettingsIterCtx} {s : UserSetting}
    (h : (userSettingsListIterNext list ctx).2=some s) :
    (pending list (userSettingsListIterNext list ctx).1).length<(pending list ctx).length := by
  rw [iterNext_result] at h
  obtain ⟨tail,hp⟩ := List.head?_eq_some_iff.mp h
  rw [iterNext_pending,hp]
  exact Nat.lt_succ_self _

/-- Take items until one is marked as changed. -/
def iterNextFlagged (list : SettingsList) (ctx : UserSettingsIterCtx) :
    UserSettingsIterCtx×Option UserSetting :=
  match _h : (userSettingsListIterNext list ctx).2 with
  | none => ((userSettingsListIterNext list ctx).1,none)
  | some s =>
    if s.hasChangedRecently then ((userSettingsListIterNext list ctx).1,some s)
    else iterNextFlagged list (userSettingsListIterNext list ctx).1
termination_by (pending list ctx).length
decreasing_by exact iterNext_shorter _h

/-- Get key and identifier of the next setting in the iteration. -/
def userSettingsIterNext (list : SettingsList) (ctx : UserSettingsIterCtx) :
    UserSettingsIterCtx×Option (CString×UInt16) :=
  let next := userSettingsListIterNext list ctx
  (next.1,next.2.map fun s => (s.key,s.id))

/-- Get key and identifier of the next changed setting in the iteration. -/
def userSettingsIterNextChanged (list : SettingsList) (ctx : UserSettingsIterCtx) :
    UserSettingsIterCtx×Option (CString×UInt16) :=
  let next := iterNextFlagged list ctx
  (next.1,next.2.map fun s => (s.key,s.id))

/-- Check whether any setting is marked as changed. -/
def userSettingsAnyChanged (list : SettingsList) : Bool :=
  (iterNextFlagged list userSettingsListIterStart).2.isSome

/-- The changed settings that a context has still to return. -/
def pendingFlagged (list : SettingsList) (ctx : UserSettingsIterCtx) : List UserSetting :=
  (pending list ctx).filter UserSetting.hasChangedRecently

/-- Taking items until one is marked takes the first marked one. -/
theorem iterNextFlagged_eq (list : SettingsList) (ctx : UserSettingsIterCtx) :
    (iterNextFlagged list ctx).2=(pendingFlagged list ctx).head? ∧
      pendingFlagged list (iterNextFlagged list ctx).1=(pendingFlagged list ctx).tail := by
  fun_induction iterNextFlagged list ctx with
  | case1 ctx h =>
    rw [iterNext_result,List.head?_eq_none_iff] at h
    unfold pendingFlagged
    rw [iterNext_pending,h]
    exact ⟨rfl,rfl⟩
  | case2 ctx s h hflag =>
    rw [iterNext_result] at h
    obtain ⟨tail,hp⟩ := List.head?_eq_some_iff.mp h
    unfold pendingFlagged
    rw [iterNext_pending,hp,List.filter_cons_of_pos hflag]
    exact ⟨rfl,rfl⟩
  | case3 ctx s h hflag ih =>
    rw [iterNext_result] at h
    obtain ⟨tail,hp⟩ := List.head?_eq_some_iff.mp h
    have hsame : pendingFlagged list (userSettingsListIterNext list ctx).1=
        pendingFlagged list ctx := by
      unfold pendingFlagged
      rw [iterNext_pending,hp,List.filter_cons_of_neg hflag]
      rfl
    rw [hsame] at ih
    exact ih

/-- The results of some calls, one after another. -/
def results {β : Type} (next : UserSettingsIterCtx → UserSettingsIterCtx×Option β) :
    ℕ → UserSettingsIterCtx → List (Option β)
  | 0,_ => []
  | n+1,ctx => (next ctx).2::results next n (next ctx).1

/-- Calls that take the first of some items return these in order and then
nothing any more. -/
theorem results_eq {β : Type} {next : UserSettingsIterCtx → UserSettingsIterCtx×Option β}
    (items : UserSettingsIterCtx → List β)
    (h : ∀ ctx,(next ctx).2=(items ctx).head? ∧ items (next ctx).1=(items ctx).tail)
    (n : ℕ) (ctx : UserSettingsIterCtx) :
    results next n ctx=(List.range n).map fun i => (items ctx)[i]? := by
  induction n generalizing ctx with
  | zero => rfl
  | succ n ih =>
    rw [results,ih,(h ctx).1,(h ctx).2,List.range_succ_eq_map,List.map_cons,List.map_map,
      List.head?_eq_getElem?]
    congr 1
    apply List.map_congr_left
    intro i _
    exact List.getElem?_tail

/-- Repeated calls report the changed settings in registration order. -/
theorem results_nextChanged (list : SettingsList) (n : ℕ) :
    results (userSettingsIterNextChanged list) n userSettingsListIterStart=
      (List.range n).map fun i =>
        ((list.items.filter UserSetting.hasChangedRecently).map fun s => (s.key,s.id))[i]? := by
  have hnext : ∀ ctx,(userSettingsIterNextChanged list ctx).2=
      ((pendingFlagged list ctx).map fun s => (s.key,s.id)).head? ∧
      ((pendingFlagged list (userSettingsIterNextChanged list ctx).1).map fun s => (s.key,s.id))=
        ((pendingFlagged list ctx).map fun s => (s.key,s.id)).tail := by
    intro ctx
    obtain ⟨hresult,hpending⟩ := iterNextFlagged_eq list ctx
    unfold userSettingsIterNextChanged
    dsimp only
    rw [hresult,hpending,List.head?_map,List.map_tail]
    exact ⟨rfl,rfl⟩
  exact results_eq (fun ctx => (pendingFlagged list ctx).map fun s => (s.key,s.id)) hnext n
    userSettingsListIterStart

/-- Some setting is reported as changed exactly when one is marked. -/
theorem anyChanged_eq (list : SettingsList) :
    userSettingsAnyChanged list=list.items.any UserSetting.hasChangedRecently := by
  unfold userSettingsAnyChanged
  rw [(iterNextFlagged_eq list userSettingsListIterStart).1]
  unfold pendingFlagged
  rw [pending_start]
  induction list.items with
  | nil => rfl
  | cons s rest ih =>
    rw [List.any_cons]
    by_cases hs : s.hasChangedRecently=true
    · rw [List.filter_cons_of_pos hs,hs]
      rfl
    · rw [List.filter_cons_of_neg hs,ih]
      simp [hs]

end UserSettings.Iteration
