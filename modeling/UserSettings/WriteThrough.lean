import UserSettings.History
import Mathlib.Data.Set.Card

/-!
# Stores with a live and a durable copy

A store answers from its live copy. What is written goes to the live copy and
is then attempted on the durable one, on a medium that may refuse any
attempt. A call is planned on the live copy as a list of writes and ends at
the first one that is refused; a restart takes over the durable copy. Three
facts hold of all such stores, whatever is planned. Calls that only write
what differs make one attempt for each cell that they change. The copies agree
in every cell whose last write was not refused. And when the medium stops
working at some moment, the durable copy is what an uninterrupted store has
after some of the calls and a part of the next one.
-/

namespace UserSettings.WriteThrough

open Transition

variable {C V α : Type*} [DecidableEq C]

/-- A store with its two copies. -/
structure Twin (C V : Type*) where
  /-- The copy that answers. -/
  live : C → Option V
  /-- The copy that survives a restart. -/
  durable : C → Option V
  /-- The number of attempts on the medium so far. -/
  attempts : ℕ

/-- One write of a call. -/
inductive Write (C V : Type*) where
  /-- Give a cell a content in both copies. -/
  | put (cell : C) (content : Option V)
  /-- Empty a cell of the durable copy only. -/
  | drop (cell : C)

namespace Write

/-- The cell that is written. -/
def cell : Write C V → C
  | .put cell _ | .drop cell => cell

/-- What a write does to the live copy. -/
def onLive (copy : C → Option V) : Write C V → C → Option V
  | .put cell content => Function.update copy cell content
  | .drop _ => copy

/-- What a write does to the durable copy. -/
def onDurable (copy : C → Option V) : Write C V → C → Option V
  | .put cell content => Function.update copy cell content
  | .drop cell => Function.update copy cell none

end Write

/-- The first write, attempted on a medium. -/
def attempt (works : ℕ → Bool) (t : Twin C V) (write : Write C V) : Twin C V where
  live := write.onLive t.live
  durable := if works t.attempts then write.onDurable t.durable else t.durable
  attempts := t.attempts+1

/-- Writes in order up to the first that the medium refuses; whether all of
them were made. -/
def exec (works : ℕ → Bool) : Twin C V → List (Write C V) → Twin C V×Bool
  | t,[] => (t,true)
  | t,write::rest =>
    if works t.attempts then exec works (attempt works t write) rest
    else (attempt works t write,false)

/-- What happens to a store. -/
inductive Event (α : Type*) where
  /-- A call. -/
  | call (label : α)
  /-- A restart. -/
  | restart

/-- A restart takes over the durable copy. -/
def restart (t : Twin C V) : Twin C V := {t with live := t.durable}

/-- A step of the store; a call without a plan is not possible. -/
def step (works : ℕ → Bool) (plan : (C → Option V) → α → Option (List (Write C V)))
    (t : Twin C V) : Event α → Option (Twin C V)
  | .call label => (plan t.live label).map fun writes => (exec works t writes).1
  | .restart => some (restart t)

/-- A medium that stops working after some attempts. -/
def upTo (n : ℕ) (works : ℕ → Bool) : ℕ → Bool := fun i => works i && decide (i<n)

variable {works : ℕ → Bool} {plan : (C → Option V) → α → Option (List (Write C V))}
  {t final : Twin C V} {writes : List (Write C V)} {n : ℕ}

/-- No writes are made at once. -/
@[simp] theorem exec_nil (works : ℕ → Bool) (t : Twin C V) : exec works t []=(t,true) := rfl

/-- The first of some writes and those behind it. -/
theorem exec_cons (works : ℕ → Bool) (t : Twin C V) (write : Write C V)
    (rest : List (Write C V)) : exec works t (write::rest)=
      if works t.attempts then exec works (attempt works t write) rest
      else (attempt works t write,false) := rfl

/-- Attempts are only added. -/
theorem attempts_le_exec (works : ℕ → Bool) (t : Twin C V) (writes : List (Write C V)) :
    t.attempts ≤ (exec works t writes).1.attempts := by
  induction writes generalizing t with
  | nil => exact le_rfl
  | cons write rest ih =>
    have hone : t.attempts ≤ (attempt works t write).attempts := Nat.le_succ _
    unfold exec
    split
    · exact hone.trans (ih _)
    · exact hone

section Attempts

/-- Other cells of the live copy stay. -/
theorem onLive_ne (copy : C → Option V) {write : Write C V} {cell : C} (h : cell≠write.cell) :
    write.onLive copy cell=copy cell := by
  cases write with
  | put => exact Function.update_of_ne h ..
  | drop => rfl

/-- Cells that no write names stay. -/
theorem foldl_onLive_ne (copy : C → Option V) {cell : C} (h : cell∉writes.map Write.cell) :
    writes.foldl Write.onLive copy cell=copy cell := by
  induction writes generalizing copy with
  | nil => rfl
  | cons write rest ih =>
    rw [List.map_cons,List.mem_cons,not_or] at h
    rw [List.foldl_cons,ih _ h.2,onLive_ne copy h.1]

/-- Executing makes some of the writes, in order, with one attempt for each. -/
theorem exec_made (works : ℕ → Bool) (t : Twin C V) (writes : List (Write C V)) :
    ∃ made,made<+:writes ∧ (exec works t writes).1.live=made.foldl Write.onLive t.live ∧
      (exec works t writes).1.attempts=t.attempts+made.length := by
  induction writes generalizing t with
  | nil => exact ⟨[],List.prefix_rfl,rfl,rfl⟩
  | cons write rest ih =>
    unfold exec
    by_cases hworks : works t.attempts=true
    · obtain ⟨made,hmade,hlive,hcount⟩ := ih (attempt works t write)
      rw [if_pos hworks]
      refine ⟨write::made,List.prefix_cons_inj write |>.mpr hmade,hlive,hcount.trans ?_⟩
      have hone : (attempt works t write).attempts=t.attempts+1 := rfl
      rw [hone,List.length_cons]
      omega
    · rw [if_neg hworks]
      exact ⟨[write],List.prefix_cons_inj write |>.mpr List.nil_prefix,rfl,rfl⟩

/-- Executing leaves other cells of the live copy as they are. -/
theorem live_exec_ne (works : ℕ → Bool) (t : Twin C V) {cell : C}
    (h : cell∉writes.map Write.cell) : (exec works t writes).1.live cell=t.live cell := by
  obtain ⟨made,hmade,hlive,_⟩ := exec_made works t writes
  rw [hlive]
  exact foldl_onLive_ne t.live fun hm => h ((hmade.map Write.cell).subset hm)

/-- Writes that each change a cell of their own in the live copy. -/
structure Effective (copy : C → Option V) (writes : List (Write C V)) : Prop where
  /-- No cell is written twice. -/
  distinct : (writes.map Write.cell).Nodup
  /-- Each write changes its cell. -/
  differs : ∀ write∈writes,write.onLive copy write.cell≠copy write.cell

/-- The cells of effective writes are those that change. -/
theorem foldl_onLive_differs (copy : C → Option V) {cell : C}
    (hd : (writes.map Write.cell).Nodup)
    (h : ∀ write∈writes,write.onLive copy write.cell≠copy write.cell) :
    writes.foldl Write.onLive copy cell≠copy cell ↔ cell∈writes.map Write.cell := by
  constructor
  · intro hne
    by_contra hmem
    exact hne (foldl_onLive_ne copy hmem)
  · intro hmem
    induction writes generalizing copy with
    | nil => cases hmem
    | cons write rest ih =>
      rw [List.map_cons,List.nodup_cons] at hd
      rw [List.foldl_cons]
      rcases List.mem_cons.mp hmem with rfl|hlater
      · rw [foldl_onLive_ne _ hd.1]
        exact h write List.mem_cons_self
      · have hne : cell≠write.cell := fun he => hd.1 (he ▸ hlater)
        have hrest : ∀ later∈rest,later.onLive (write.onLive copy) later.cell≠
            write.onLive copy later.cell := by
          intro later hl
          have hcell : later.cell≠write.cell :=
            fun he => hd.1 (he ▸ List.mem_map_of_mem (f:=Write.cell) hl)
          have hold := h later (List.mem_cons_of_mem write hl)
          rw [onLive_ne copy hcell]
          cases later with
          | put other content =>
            simpa only [Write.onLive,Write.cell,Function.update_self] using hold
          | drop => exact absurd rfl hold
        have hnext := ih (write.onLive copy) hd.2 hrest hlater
        rw [onLive_ne copy hne] at hnext
        exact hnext

/-- The cells of the live copy that differ. -/
def changed (t next : Twin C V) : Set C := {cell | next.live cell≠t.live cell}

/-- Effective writes make one attempt for each cell they change, whichever
attempts are refused. -/
theorem attempts_exec (works : ℕ → Bool) (h : Effective t.live writes) :
    (exec works t writes).1.attempts=
      t.attempts+(changed t (exec works t writes).1).ncard := by
  classical
  obtain ⟨made,hmade,hlive,hcount⟩ := exec_made works t writes
  have hdistinct : (made.map Write.cell).Nodup :=
    h.distinct.sublist (hmade.sublist.map Write.cell)
  have hset : changed t (exec works t writes).1=↑(made.map Write.cell).toFinset := by
    ext cell
    unfold changed
    rw [Set.mem_ofPred_eq,hlive,Finset.mem_coe,List.mem_toFinset]
    exact foldl_onLive_differs t.live hdistinct fun write hw =>
      h.differs write (hmade.subset hw)
  rw [hcount,hset,Set.ncard_coe_finset,List.toFinset_card_of_nodup hdistinct,List.length_map]

end Attempts

section Behind

/-- The cells that the durable copy may lag behind in after a write was made. -/
def Write.behind (behind : C → Bool) : Write C V → C → Bool
  | .put cell _ => Function.update behind cell false
  | .drop cell => Function.update behind cell true

/-- The cells that the durable copy may lag behind in after some writes: those
whose last write was refused, or emptied the durable copy only. -/
def lagging (works : ℕ → Bool) : Twin C V → (C → Bool) → List (Write C V) → C → Bool
  | _,behind,[] => behind
  | t,behind,write::rest =>
    if works t.attempts then lagging works (attempt works t write) (write.behind behind) rest
    else Function.update behind write.cell true

/-- The two copies agree in all other cells. -/
def AgreeBut (behind : C → Bool) (t : Twin C V) : Prop :=
  ∀ cell,behind cell=false → t.live cell=t.durable cell

variable {behind : C → Bool}

/-- The first of some writes and those after it. -/
theorem lagging_cons (works : ℕ → Bool) (t : Twin C V) (behind : C → Bool) (write : Write C V)
    (rest : List (Write C V)) : lagging works t behind (write::rest)=
      if works t.attempts then lagging works (attempt works t write) (write.behind behind) rest
      else Function.update behind write.cell true := rfl

/-- A cell that no write names lags behind if it did before. -/
theorem lagging_ne {cell : C} (h : cell∉writes.map Write.cell) :
    lagging works t behind writes cell=behind cell := by
  induction writes generalizing t behind with
  | nil => rfl
  | cons write rest ih =>
    rw [List.map_cons,List.mem_cons,not_or] at h
    rw [lagging_cons]
    split
    · rw [ih h.2]
      cases write with
      | put => exact Function.update_of_ne h.1 ..
      | drop => exact Function.update_of_ne h.1 ..
    · exact Function.update_of_ne h.1 ..

/-- A write that is made keeps the agreement but for the cells behind it. -/
theorem agreeBut_attempt {write : Write C V} (hworks : works t.attempts=true)
    (h : AgreeBut behind t) : AgreeBut (write.behind behind) (attempt works t write) := by
  intro cell hcell
  unfold attempt
  dsimp only
  rw [if_pos hworks]
  cases write with
  | put target content =>
    unfold Write.behind at hcell
    unfold Write.onLive Write.onDurable
    dsimp only at hcell ⊢
    by_cases hc : cell=target
    · rw [hc,Function.update_self,Function.update_self]
    · rw [Function.update_of_ne hc] at hcell
      rw [Function.update_of_ne hc,Function.update_of_ne hc,h cell hcell]
  | drop target =>
    unfold Write.behind at hcell
    unfold Write.onLive Write.onDurable
    dsimp only at hcell ⊢
    by_cases hc : cell=target
    · rw [hc,Function.update_self] at hcell
      cases hcell
    · rw [Function.update_of_ne hc] at hcell
      rw [Function.update_of_ne hc,h cell hcell]

/-- Whichever writes are refused, the copies agree but for the cells that are
left behind. -/
theorem agreeBut_exec (h : AgreeBut behind t) :
    AgreeBut (lagging works t behind writes) (exec works t writes).1 := by
  induction writes generalizing t behind with
  | nil => exact h
  | cons write rest ih =>
    rw [lagging_cons,exec_cons]
    by_cases hworks : works t.attempts=true
    · rw [if_pos hworks,if_pos hworks]
      exact ih (agreeBut_attempt hworks h)
    · rw [if_neg hworks,if_neg hworks]
      intro cell hcell
      have hne : cell≠write.cell := by
        rintro rfl
        rw [Function.update_self] at hcell
        cases hcell
      rw [Function.update_of_ne hne] at hcell
      unfold attempt
      dsimp only
      rw [if_neg hworks,onLive_ne t.live hne]
      exact h cell hcell

end Behind

section PowerLoss

/-- Writes whose attempts all come before the medium stops are made as on one
that goes on. -/
theorem exec_upTo (h : (exec works t writes).1.attempts ≤ n) :
    exec (upTo n works) t writes=exec works t writes := by
  induction writes generalizing t with
  | nil => rfl
  | cons write rest ih =>
    rw [exec_cons] at h
    rw [exec_cons,exec_cons]
    by_cases hw : works t.attempts=true
    · rw [if_pos hw] at h
      have hbefore : t.attempts<n :=
        Nat.lt_of_succ_le ((attempts_le_exec works (attempt works t write) rest).trans h)
      have hup : upTo n works t.attempts=true := by simp [upTo,hw,hbefore]
      have hsame : attempt (upTo n works) t write=attempt works t write := by
        unfold attempt
        rw [hup,hw]
      rw [if_pos hw,if_pos hup,hsame]
      exact ih h
    · have hup : ¬upTo n works t.attempts=true := by simp [upTo,hw]
      have hsame : attempt (upTo n works) t write=attempt works t write := by
        unfold attempt
        rw [if_neg hup,if_neg hw]
      rw [if_neg hw,if_neg hup,hsame]

/-- Otherwise the durable copy gets the writes before the medium stops. -/
theorem durable_exec_upTo (hn : t.attempts ≤ n) (h : n<(exec works t writes).1.attempts) :
    (exec (upTo n works) t writes).1.durable=
        (writes.take (n-t.attempts)).foldl Write.onDurable t.durable ∧
      n ≤ (exec (upTo n works) t writes).1.attempts := by
  induction writes generalizing t with
  | nil => exact absurd h (Nat.not_lt.mpr hn)
  | cons write rest ih =>
    have hcount : (attempt (upTo n works) t write).attempts=t.attempts+1 := rfl
    rw [exec_cons] at h
    rw [exec_cons]
    by_cases hlast : t.attempts=n
    · have hup : ¬upTo n works t.attempts=true := by simp [upTo,hlast]
      rw [if_neg hup,hlast,Nat.sub_self,List.take_zero]
      refine ⟨if_neg hup,?_⟩
      rw [hcount]
      omega
    · have hbefore : t.attempts<n := by omega
      -- the medium refuses nothing before it stops, or the call would end there
      have hw : works t.attempts=true := by
        by_contra hw
        rw [if_neg hw] at h
        exact absurd h (Nat.not_lt.mpr hbefore)
      have hup : upTo n works t.attempts=true := by simp [upTo,hw,hbefore]
      have hsame : attempt (upTo n works) t write=attempt works t write := by
        unfold attempt
        rw [hup,hw]
      have hdurable : (attempt works t write).durable=write.onDurable t.durable := if_pos hw
      have htake : n-t.attempts=(n-(t.attempts+1))+1 := by omega
      rw [hsame] at hcount
      rw [if_pos hw] at h
      have hrest := ih (t:=attempt works t write) (by rw [hcount]; omega) h
      rw [hcount,hdurable] at hrest
      rw [if_pos hup,hsame,htake,List.take_succ_cons,List.foldl_cons]
      exact hrest

/-- Executing makes at most one attempt for each write. -/
theorem attempts_exec_le (works : ℕ → Bool) (t : Twin C V) (writes : List (Write C V)) :
    (exec works t writes).1.attempts ≤ t.attempts+writes.length := by
  obtain ⟨made,hmade,_,hcount⟩ := exec_made works t writes
  have hlength := hmade.length_le
  omega

/-- When the second of two writes was attempted, the first one was made. -/
theorem durable_but_last {write : Write C V} {cell : C} {content : Option V}
    (hne : cell≠write.cell)
    (h : t.attempts+1<(exec works t [write,.put cell content]).1.attempts) :
    Function.update (exec works t [write,.put cell content]).1.durable cell (t.durable cell)=
      write.onDurable t.durable := by
  have hkept : write.onDurable t.durable cell=t.durable cell := by
    cases write <;> exact Function.update_of_ne hne ..
  have hw : works t.attempts=true := by
    by_contra hw
    rw [exec_cons,if_neg hw] at h
    exact absurd h (Nat.lt_irrefl _)
  have hfirst : (attempt works t write).durable=write.onDurable t.durable := if_pos hw
  rw [exec_cons,if_pos hw,exec_cons]
  split
  · have hlast : (attempt works (attempt works t write) (.put cell content)).durable=
        Function.update (write.onDurable t.durable) cell content := by
      rw [←hfirst]
      exact if_pos ‹_›
    rw [exec_nil,hlast,Function.update_idem,←hkept,Function.update_eq_self]
  · have hlast : (attempt works (attempt works t write) (.put cell content)).durable=
        write.onDurable t.durable := (if_neg ‹_›).trans hfirst
    rw [hlast,←hkept,Function.update_eq_self]

/-- A medium that has stopped leaves the durable copy as it is. -/
theorem durable_frozen (hn : n ≤ t.attempts) :
    (exec (upTo n works) t writes).1.durable=t.durable := by
  cases writes with
  | nil => rfl
  | cons write rest =>
    have hup : ¬upTo n works t.attempts=true := by simp [upTo,hn]
    rw [exec_cons,if_neg hup]
    exact if_neg hup

/-- It does so for the rest of a run. -/
theorem run_frozen {events : List (Event α)} (hn : n ≤ t.attempts)
    (h : run (step (upTo n works) plan) t events=some final) : final.durable=t.durable := by
  refine (run_invariant_always (I:=fun u => n ≤ u.attempts ∧ u.durable=t.durable) ?_
    ⟨hn,rfl⟩ h).2
  rintro u event v ⟨hu,hsame⟩ hs
  cases event with
  | call label =>
    obtain ⟨writes,_,rfl⟩ := Option.map_eq_some_iff.mp hs
    exact ⟨hu.trans (attempts_le_exec _ u writes),(durable_frozen hu).trans hsame⟩
  | restart =>
    cases hs
    exact ⟨hu,hsame⟩

/-- Where a store stands when the medium stops: the events that are left, the
first of which is a call under way, and what this call had written by then. -/
inductive Interrupted (works : ℕ → Bool) (plan : (C → Option V) → α → Option (List (Write C V)))
    (n : ℕ) (middle : Twin C V) : List (Event α) → (C → Option V) → Prop
  /-- The medium did not stop. -/
  | completed : Interrupted works plan n middle [] middle.durable
  /-- It stopped during a call. -/
  | during {label : α} {later : List (Event α)} {writes : List (Write C V)}
    (hplan : plan middle.live label=some writes) (hless : n<(exec works middle writes).1.attempts) :
    Interrupted works plan n middle (.call label::later)
      ((writes.take (n-middle.attempts)).foldl Write.onDurable middle.durable)

/-- When the medium stops at some moment of a run, the durable copy is from
then on what a store that goes on has after the completed calls, and the writes
of the next call up to that moment. -/
theorem power_loss {events : List (Event α)} (hn : t.attempts ≤ n)
    (h : run (step (upTo n works) plan) t events=some final) :
    ∃ first rest middle,events=first++rest ∧ run (step works plan) t first=some middle ∧
      middle.attempts ≤ n ∧ Interrupted works plan n middle rest final.durable := by
  induction events generalizing t with
  | nil =>
    have hsame : t=final := Option.some.inj h
    rw [←hsame]
    exact ⟨[],[],t,rfl,rfl,hn,.completed⟩
  | cons event events ih =>
    obtain ⟨next,hs,hrun⟩ := run_cons.mp h
    cases event with
    | restart =>
      have hnext : restart t=next := Option.some.inj hs
      rw [←hnext] at hrun
      obtain ⟨first,rest,middle,hsplit,hfirst,hmiddle,hstopped⟩ := ih (t:=restart t) hn hrun
      exact ⟨.restart::first,rest,middle,congrArg _ hsplit,hfirst,hmiddle,hstopped⟩
    | call label =>
      obtain ⟨writes,hplan,rfl⟩ := Option.map_eq_some_iff.mp hs
      by_cases hfits : (exec works t writes).1.attempts ≤ n
      · rw [exec_upTo hfits] at hrun
        obtain ⟨first,rest,middle,hsplit,hfirst,hmiddle,hstopped⟩ := ih hfits hrun
        refine ⟨.call label::first,rest,middle,congrArg _ hsplit,?_,hmiddle,hstopped⟩
        exact run_cons.mpr ⟨_,by rw [step,hplan]; rfl,hfirst⟩
      · obtain ⟨hdurable,hpast⟩ := durable_exec_upTo hn (Nat.lt_of_not_le hfits)
        refine ⟨[],.call label::events,t,rfl,rfl,hn,?_⟩
        rw [run_frozen hpast hrun,hdurable]
        exact .during hplan (Nat.lt_of_not_le hfits)

end PowerLoss

end UserSettings.WriteThrough
