import Veloco.Deque
import Veloco.Trans
import Veloco.Word

/-!
# The P-local work-stealing deque (`src/runtime/run_queue.c`)
-/

namespace Veloco.RunQueue

open Function
open Veloco.Word

structure Entry (α : Type) where
  serial : ℕ
  item : α
  deriving DecidableEq, Repr

structure Queue (α : Type) where
  top : ℕ
  bottom : ℕ
  slots : ℕ → Option (Entry α)
  capacity : ℕ
  mask : ℕ

inductive OwnerPc (α : Type) where
  | idle
  | pushLoadBottom (item : α)
  | pushLoadTop (item : α) (bottom : ℕ)
  | pushStoreSlot (item : α) (bottom : ℕ)
  | pushStoreBottom (item : α) (bottom : ℕ)
  | popLoadBottom
  | popStoreBottom (bottom : ℕ)
  | popLoadTop (bottom : ℕ)
  | popRestoreBottom (top : ℕ)
  | popLoadSlot (bottom top : ℕ)
  | popCas (top : ℕ) (item : Option (Entry α))
  | popPublishBottom (top : ℕ) (item : Option (Entry α))

inductive ThiefPc (α : Type) where
  | idle
  | loadTop
  | loadBottom (top : ℕ)
  | loadSlot (top : ℕ)
  | cas (top : ℕ) (item : Option (Entry α))

structure Thief (α : Type) where
  pc : ThiefPc α
  maximum : Option ℕ
  items : List (Entry α)

structure State (α : Type) where
  queue : Queue α
  owner : OwnerPc α
  thief : ℕ → Thief α
  pushed : List α
  popped : List (Entry α)
  stolen : List (Entry α)
  log : List (Deque.Event (Entry α))

variable {α : Type}

def Queue.slot (q : Queue α) (index : ℕ) : Option (Entry α) := q.slots (index &&& q.mask)

def Queue.storeSlot (q : Queue α) (index : ℕ) (e : Entry α) : Queue α :=
  { q with slots := update q.slots (index &&& q.mask) (some e) }

def Queue.init (capacity : ℕ) (calloc : Bool) : Option (Queue α) :=
  if capacity < 2 ∨ isPowerOfTwo capacity = false ∨ sizeMax / 8 < capacity then none
  else if calloc = false then none
  else some { top := 0, bottom := 0, slots := fun _ => none, capacity, mask := capacity - 1 }

def Queue.length (q : Queue α) : ℕ := if q.top < q.bottom then q.bottom - q.top else 0

def State.init (capacity : ℕ) (calloc : Bool) : Option (State α) :=
  (Queue.init capacity calloc).map fun q =>
    { queue := q, owner := .idle, thief := fun _ => ⟨.idle, none, []⟩
      pushed := [], popped := [], stolen := [], log := [] }

def ownerStep (s : State α) : Option (State α) :=
  let q := s.queue
  match s.owner with
  | .idle => none
  | .pushLoadBottom item => some { s with owner := .pushLoadTop item q.bottom }
  | .pushLoadTop item bottom =>
    if q.capacity ≤ sub bottom q.top then
      some { s with owner := .idle }  -- VL_ERROR_WOULD_BLOCK
    else some { s with owner := .pushStoreSlot item bottom }
  | .pushStoreSlot item bottom =>
    some { s with
      queue := q.storeSlot bottom ⟨s.pushed.length, item⟩
      owner := .pushStoreBottom item bottom }
  | .pushStoreBottom item bottom =>
    some { s with
      queue := { q with bottom := add bottom 1 }
      owner := .idle  -- VL_OK
      pushed := s.pushed ++ [item]
      log := s.log ++ [.push ⟨s.pushed.length, item⟩] }
  | .popLoadBottom =>
    if q.bottom = 0 then some { s with owner := .idle }
    else some { s with owner := .popStoreBottom (sub q.bottom 1) }
  | .popStoreBottom bottom =>
    some { s with queue := { q with bottom := bottom }, owner := .popLoadTop bottom }
  | .popLoadTop bottom =>
    if bottom < q.top then some { s with owner := .popRestoreBottom q.top }
    else some { s with
      owner := .popLoadSlot bottom q.top
      -- with more than one element left the load of `top` decides the pop
      log := if q.top < bottom then s.log ++ ((q.slot bottom).map .pop).toList else s.log }
  | .popRestoreBottom top =>
    some { s with queue := { q with bottom := top }, owner := .idle }
  | .popLoadSlot bottom top =>
    if top = bottom then some { s with owner := .popCas top (q.slot bottom) }
    else some { s with owner := .idle, popped := s.popped ++ (q.slot bottom).toList }
  | .popCas top item =>
    if q.top = top then
      some { s with
        queue := { q with top := add top 1 }
        owner := .popPublishBottom top item
        log := s.log ++ (item.map .pop).toList }
    else some { s with owner := .popPublishBottom top none }
  | .popPublishBottom top item =>
    some { s with
      queue := { q with bottom := add top 1 }
      owner := .idle
      popped := s.popped ++ item.toList }

def stealReturn (s : State α) (i : ℕ) (item : Option (Entry α)) : State α :=
  let th := s.thief i
  match th.maximum, item with
  | none, item =>
    { s with
      thief := update s.thief i ⟨.idle, none, []⟩
      stolen := s.stolen ++ item.toList }
  | some _, none =>
    { s with
      thief := update s.thief i ⟨.idle, none, []⟩
      stolen := s.stolen ++ th.items }
  | some maximum, some e =>
    if th.items.length + 1 < maximum then
      { s with thief := update s.thief i ⟨.loadTop, some maximum, th.items ++ [e]⟩ }
    else
      { s with
        thief := update s.thief i ⟨.idle, none, []⟩
        stolen := s.stolen ++ (th.items ++ [e]) }

def thiefStep (s : State α) (i : ℕ) : Option (State α) :=
  let q := s.queue
  let th := s.thief i
  let goto (pc : ThiefPc α) : State α :=
    { s with thief := update s.thief i { th with pc } }
  match th.pc with
  | .idle => none
  | .loadTop => some (goto (.loadBottom q.top))
  | .loadBottom top =>
    if q.bottom ≤ top then some (stealReturn s i none) else some (goto (.loadSlot top))
  | .loadSlot top => some (goto (.cas top (q.slot top)))
  | .cas top item =>
    if q.top = top then
      some (stealReturn
        { s with
          queue := { q with top := add top 1 }
          log := s.log ++ (item.map .steal).toList } i item)
    else some (stealReturn s i none)

inductive Action (α : Type) where
  | callPush (item : Option α)
  | callPop
  | owner
  | callSteal (i : ℕ)
  | callStealBatch (i maximum : ℕ)
  | thief (i : ℕ)

def step (s : State α) : Action α → Option (State α)
  | .callPush none => some s  -- VL_ERROR_INVALID_ARGUMENT
  | .callPush (some item) =>
    match s.owner with
    | .idle => some { s with owner := .pushLoadBottom item }
    | _ => none
  | .callPop =>
    match s.owner with
    | .idle => some { s with owner := .popLoadBottom }
    | _ => none
  | .owner => ownerStep s
  | .callSteal i =>
    match (s.thief i).pc with
    | .idle => some { s with thief := update s.thief i ⟨.loadTop, none, []⟩ }
    | _ => none
  | .callStealBatch i maximum =>
    match (s.thief i).pc with
    | .idle =>
      if 0 < maximum then
        some { s with thief := update s.thief i ⟨.loadTop, some maximum, []⟩ }
      else some s
    | _ => none
  | .thief i => thiefStep s i

@[simp] theorem stealReturn_pushed (s : State α) (i : ℕ) (item : Option (Entry α)) :
    (stealReturn s i item).pushed = s.pushed := by
  unfold stealReturn
  dsimp only
  split
  · rfl
  · rfl
  · split_ifs <;> rfl

theorem thiefStep_pushed {s s' : State α} {i : ℕ} (hs : thiefStep s i = some s') :
    s'.pushed = s.pushed := by
  unfold thiefStep at hs
  dsimp only at hs
  split at hs
  · cases hs
  · cases hs
    rfl
  · split_ifs at hs <;> cases hs <;> simp
  · cases hs
    rfl
  · split_ifs at hs <;> cases hs <;> simp

def Quiescent (s : State α) : Prop :=
  (match s.owner with | .idle => True | _ => False) ∧
    ∀ i, match (s.thief i).pc with | .idle => True | _ => False

def Queue.window (q : Queue α) : List (Option (Entry α)) :=
  (List.range' q.top (q.bottom - q.top)).map q.slot

def State.returned (s : State α) : List (Entry α) := s.popped ++ s.stolen

def State.pushes (s : State α) : List (Entry α) :=
  s.pushed.zipIdx.map fun p => ⟨p.2, p.1⟩

end Veloco.RunQueue
