import Mathlib.Data.List.Induction
import Mathlib.Data.List.Nodup

/-!
# A cursor over a list that grows

A cursor stands behind the elements it has passed, or has come to an end for
good. A look takes the first wanted element from there on, in the list as it is
at that moment. What a series of looks returns is fixed by the place the cursor
starts from; here it is read off the results alone.
-/

namespace UserSettings.Cursor

variable {α β : Type*}

/-- The position of the first wanted element from a position on. -/
def seek (wants : α → Bool) (items : List α) (k : ℕ) : Option ℕ :=
  ((items.drop k).findIdx? wants).map (k+·)

/-- One use of a cursor: what it looks for, the list it finds, and the name of
the element it returns. -/
structure Look (α β : Type*) where
  /-- The wanted elements. -/
  wants : α → Bool
  /-- The list at that moment. -/
  items : List α
  /-- The result. -/
  result : Option β

/-- The position that a look finds from a place on; from the end none. -/
def Look.found (look : Look α β) (place : Option ℕ) : Option ℕ :=
  place.bind (seek look.wants look.items)

/-- The place behind what a look finds. -/
def Look.behind (look : Look α β) (place : Option ℕ) : Option ℕ := (look.found place).map (·+1)

/-- Looks one after another return what a cursor finds. -/
def Follows (name : α → β) : Option ℕ → List (Look α β) → Prop
  | _,[] => True
  | place,look::rest =>
    look.result=((look.found place).bind fun j => look.items[j]?).map name ∧
      Follows name (look.behind place) rest

/-- Behind the element returned last. -/
def passed [DecidableEq β] (name : α → β) (looks : List (Look α β)) : ℕ :=
  match looks.getLast? with
  | none => 0
  | some look => look.result.elim 0 fun r => (look.items.map name).idxOf r+1

/-- What the results of looks say about themselves. -/
structure Iterates [DecidableEq β] (name : α → β) (looks : List (Look α β)) : Prop where
  /-- As long as every look has returned an element, a look returns the first
  wanted one behind that returned last, or nothing if there is none. -/
  next : ∀ first look rest,looks=first++look::rest →
    (∀ earlier∈first,earlier.result≠none) →
    look.result=((look.items.drop (passed name first)).find? look.wants).map name
  /-- After the first look that returns nothing, none returns anything. -/
  finished : ∀ first look rest,looks=first++look::rest → look.result=none →
    ∀ later∈rest,later.result=none
  /-- Where everything is wanted, the elements are returned by their positions,
  from the first one on. -/
  inOrder : (∀ look∈looks,∀ a,look.wants a=true) → ∀ first look rest,
    looks=first++look::rest → (∀ earlier∈first,earlier.result≠none) →
    look.result=(look.items.map name)[first.length]?

variable {wants : α → Bool} {items : List α} {name : α → β} {place : Option ℕ} {k j : ℕ}
  {look : Look α β} {first rest looks : List (Look α β)}

/-- The first wanted element is the one at the position, or is sought behind. -/
theorem seek_eq (wants : α → Bool) (items : List α) (k : ℕ) : seek wants items k=
    match items[k]? with
    | none => none
    | some a => if wants a then some k else seek wants items (k+1) := by
  unfold seek
  by_cases hk : k < items.length
  · rw [List.getElem?_eq_getElem hk,List.drop_eq_getElem_cons hk,List.findIdx?_cons]
    dsimp only
    split
    · rfl
    · rw [Option.map_map]
      congr 1
      funext i
      simp only [Function.comp_apply]
      omega
  · rw [List.getElem?_eq_none (by omega),List.drop_eq_nil_of_le (by omega)]
    rfl

/-- What is found is the first wanted element. -/
theorem seek_bind (wants : α → Bool) (items : List α) (k : ℕ) :
    ((seek wants items k).bind fun j => items[j]?)=(items.drop k).find? wants := by
  unfold seek
  rw [List.find?_eq_bind_findIdx?_getElem?]
  cases (items.drop k).findIdx? wants with
  | none => rfl
  | some i => exact List.getElem?_drop.symm

/-- Where something is found there is an element. -/
theorem seek_some (h : seek wants items k=some j) : k ≤ j ∧ ∃ a,items[j]?=some a := by
  unfold seek at h
  obtain ⟨i,hi,rfl⟩ := Option.map_eq_some_iff.mp h
  obtain ⟨hlt,_⟩ := List.findIdx?_eq_some_iff_getElem.mp hi
  rw [List.length_drop] at hlt
  exact ⟨Nat.le_add_right k i,items[k+i],List.getElem?_eq_getElem (by omega)⟩

/-- Where everything is wanted, the next element is found. -/
theorem seek_all (h : ∀ a,wants a=true) : seek wants items k=
    if k < items.length then some k else none := by
  rw [seek_eq]
  by_cases hk : k < items.length
  · rw [List.getElem?_eq_getElem hk,if_pos hk]
    exact if_pos (h _)
  · rw [List.getElem?_eq_none (by omega),if_neg hk]

/-- A look that follows a cursor returns nothing exactly when nothing is found. -/
theorem found_none (h : look.result=((look.found place).bind fun j => look.items[j]?).map name) :
    look.result=none ↔ look.found place=none := by
  rw [h,Option.map_eq_none_iff]
  constructor
  · intro hnone
    by_contra hne
    obtain ⟨j,hj⟩ := Option.ne_none_iff_exists'.mp hne
    obtain ⟨k,hk,hseek⟩ := Option.bind_eq_some_iff.mp hj
    obtain ⟨_,a,ha⟩ := seek_some hseek
    rw [hj,Option.bind_some,ha] at hnone
    cases hnone
  · intro hnone
    rw [hnone,Option.bind_none]

/-- At the end all looks return nothing. -/
theorem Follows.ended (h : Follows name none looks) : ∀ look∈looks,look.result=none := by
  induction looks with
  | nil => exact fun _ hlook => nomatch hlook
  | cons head tail ih =>
    intro look hlook
    rcases List.mem_cons.mp hlook with rfl|hlater
    · exact h.1
    · exact ih h.2 look hlater

/-- The looks behind others follow the cursor from the place these leave. -/
theorem Follows.behind (first : List (Look α β)) (h : Follows name place (first++rest)) :
    Follows name (first.foldl (fun place look => look.behind place) place) rest := by
  induction first generalizing place with
  | nil => exact h
  | cons head tail ih => exact ih h.2

/-- Where everything is wanted and something is found, looks go on by one each. -/
theorem Follows.length (h : Follows name (some k) (looks++rest))
    (hwants : ∀ look∈looks,∀ a,look.wants a=true) (hall : ∀ look∈looks,look.result≠none) :
    looks.foldl (fun place look => look.behind place) (some k)=some (k+looks.length) := by
  induction looks generalizing k with
  | nil => rfl
  | cons head tail ih =>
    have hmem : head∈head::tail := List.mem_cons_self
    have hfound : head.found (some k)≠none :=
      fun hnone => hall head hmem ((found_none h.1).mpr hnone)
    have hplace : head.found (some k)=some k := by
      have hseek : head.found (some k)=_ := seek_all (hwants head hmem)
      rw [hseek] at hfound ⊢
      by_cases hk : k<head.items.length
      · exact if_pos hk
      · exact absurd (if_neg hk) hfound
    have hbehind : head.behind (some k)=some (k+1) := by
      unfold Look.behind
      rw [hplace]
      rfl
    have hrest := h.2
    rw [hbehind] at hrest
    rw [List.foldl_cons,hbehind,ih hrest
      (fun look hlook => hwants look (List.mem_cons_of_mem head hlook))
      fun look hlook => hall look (List.mem_cons_of_mem head hlook),List.length_cons]
    congr 1
    omega

section Names

variable [DecidableEq β]

/-- Behind the element that the last look returned. -/
theorem passed_concat (init : List (Look α β)) {last : Look α β} {b : β}
    (h : last.result=some b) : passed name (init++[last])=(last.items.map name).idxOf b+1 := by
  unfold passed
  rw [List.getLast?_concat]
  dsimp only
  rw [h]
  rfl

/-- The place that looks leave is behind the element returned last. -/
theorem passed_eq (hnames : ∀ look∈looks,(look.items.map name).Nodup)
    (h : Follows name (some 0) (looks++rest)) (hall : ∀ look∈looks,look.result≠none) :
    looks.foldl (fun place look => look.behind place) (some 0)=some (passed name looks) := by
  induction looks using List.reverseRecOn generalizing rest with
  | nil => rfl
  | append_singleton init last ih =>
    have hsplit : Follows name (some 0) (init++last::rest) := by simpa using h
    have hinit := ih (fun look hlook => hnames look (List.mem_append_left _ hlook)) hsplit
      fun look hlook => hall look (List.mem_append_left _ hlook)
    have hmem : last∈init++[last] := List.mem_append_right _ (List.mem_singleton_self last)
    have hlast := hsplit.behind init
    rw [hinit] at hlast
    obtain ⟨j,hj⟩ := Option.ne_none_iff_exists'.mp fun hnone =>
      hall last hmem ((found_none hlast.1).mpr hnone)
    obtain ⟨_,a,ha⟩ := seek_some (show seek last.wants last.items _=some j from hj)
    have hresult : last.result=some (name a) := by
      rw [hlast.1,hj,Option.bind_some,ha,Option.map_some]
    have hindex : (last.items.map name).idxOf (name a)=j := by
      obtain ⟨hlt,hget⟩ := List.getElem?_eq_some_iff.mp ha
      have hbound : j<(last.items.map name).length := by simpa using hlt
      have hmap : (last.items.map name)[j]=name a := by
        rw [List.getElem_map,hget]
      rw [←hmap]
      exact (hnames last hmem).idxOf_getElem j _
    rw [List.foldl_append,hinit,List.foldl_cons,List.foldl_nil,Look.behind,hj,
      passed_concat init hresult,hindex]
    rfl

/-- Looks that follow a cursor from the start, in lists of distinct names, find
what their results say. -/
theorem Follows.iterates (hnames : ∀ look∈looks,(look.items.map name).Nodup)
    (h : Follows name (some 0) looks) : Iterates name looks := by
  have hplace : ∀ first look rest,looks=first++look::rest →
      (∀ earlier∈first,earlier.result≠none) → Follows name (some (passed name first))
        (look::rest) := by
    rintro first look rest rfl hall
    have hbehind := h.behind first
    rw [passed_eq (fun other hother => hnames other (List.mem_append_left _ hother)) h hall]
      at hbehind
    exact hbehind
  refine ⟨fun first look rest hsplit hall => ?_,fun first look rest hsplit hnone => ?_,
    fun hwants first look rest hsplit hall => ?_⟩
  · rw [(hplace first look rest hsplit hall).1]
    exact congrArg _ (seek_bind look.wants look.items _)
  · subst hsplit
    have hbehind := h.behind first
    have hend : look.behind (first.foldl (fun place look => look.behind place) (some 0))=none := by
      rw [Look.behind,(found_none hbehind.1).mp hnone]
      rfl
    have hrest := hbehind.2
    rw [hend] at hrest
    exact hrest.ended
  · subst hsplit
    have hmem : look∈first++look::rest := List.mem_append_right _ List.mem_cons_self
    have hbehind := h.behind first
    rw [h.length (fun other hother => hwants other (List.mem_append_left _ hother)) hall,
      Nat.zero_add] at hbehind
    have hseek : look.found (some first.length)=_ := seek_all (hwants look hmem)
    rw [hbehind.1,hseek,List.getElem?_map]
    by_cases hk : first.length<look.items.length
    · rw [if_pos hk,Option.bind_some]
    · rw [if_neg hk,List.getElem?_eq_none (by omega)]
      rfl

end Names

end UserSettings.Cursor
