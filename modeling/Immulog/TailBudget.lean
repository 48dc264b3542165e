import Immulog.Lib.Ring
import Immulog.Tail
import Mathlib.Logic.Relation
import Mathlib.Order.Bounds.Basic

/-!
Tails that share a byte budget (`src/storage/tail.go`).

The tails of a store take their bytes from one budget.  An offer plans its evictions,
replaces their bytes by its own in the budget, and then evicts; a tail that is cleared or
closed gives its bytes back.  The operations hold the tail's lock, and those that find it or
the lock of the budget taken give up.
-/

namespace Immulog

open Lib

/-! ## The budget -/

structure TailBudget where
  limit : UInt64
  bytes : UInt64

def newTailBudget (limit : UInt64) : TailBudget :=
  { limit, bytes := 0 }

namespace TailBudget

/-- Replace removed bytes by added ones, if they fit. -/
def tryReplaceLocked (budget : TailBudget) (removed added : UInt64) : Option TailBudget :=
  if budget.bytes < removed then none
  else if budget.limit - (budget.bytes - removed) < added then none
  else some { budget with bytes := budget.bytes - removed + added }

def release (budget : TailBudget) (bytes : UInt64) : TailBudget :=
  if bytes = 0 then budget
  else if budget.bytes ≤ bytes then { budget with bytes := 0 }
  else { budget with bytes := budget.bytes - bytes }

variable {budget budget' : TailBudget} {removed added bytes : UInt64}

/-- A replacement that fits leaves the budget within its limit. -/
theorem tryReplaceLocked_eq_some (enough : removed ≤ budget.bytes)
    (within : budget.bytes ≤ budget.limit)
    (replaced : budget.tryReplaceLocked removed added = some budget') :
    budget'.limit = budget.limit ∧ budget'.bytes ≤ budget'.limit ∧
      budget'.bytes.toNat = budget.bytes.toNat - removed.toNat + added.toNat := by
  have bound := budget.limit.toNat_lt
  have enough' := UInt64.le_iff_toNat_le.1 enough
  have within' := UInt64.le_iff_toNat_le.1 within
  have after : (budget.bytes - removed).toNat = budget.bytes.toNat - removed.toNat :=
    UInt64.toNat_sub_of_le _ _ enough
  have left : (budget.limit - (budget.bytes - removed)).toNat =
      budget.limit.toNat - (budget.bytes.toNat - removed.toNat) := by
    rw [UInt64.toNat_sub_of_le _ _ (by rw [UInt64.le_iff_toNat_le, after]; omega), after]
  rw [tryReplaceLocked, if_neg (UInt64.not_lt.2 enough)] at replaced
  split at replaced
  · cases replaced
  · rename_i fits
    obtain rfl := Option.some.inj replaced
    rw [UInt64.lt_iff_toNat_lt, left] at fits
    have sum : (budget.bytes - removed + added).toNat =
        budget.bytes.toNat - removed.toNat + added.toNat := by
      rw [UInt64.toNat_add, after, Nat.mod_eq_of_lt (by omega)]
    refine ⟨rfl, ?_, sum⟩
    rw [UInt64.le_iff_toNat_le]
    change (budget.bytes - removed + added).toNat ≤ budget.limit.toNat
    omega

/-- What the budget holds is given back without a remainder. -/
theorem release_eq (enough : bytes ≤ budget.bytes) :
    (budget.release bytes).limit = budget.limit ∧
      (budget.release bytes).bytes.toNat = budget.bytes.toNat - bytes.toNat := by
  have enough' := UInt64.le_iff_toNat_le.1 enough
  unfold release
  split
  · rename_i none
    exact ⟨rfl, by simp [none]⟩
  split
  · rename_i all
    rw [UInt64.le_iff_toNat_le] at all
    refine ⟨rfl, ?_⟩
    change 0 = _
    omega
  · exact ⟨rfl, UInt64.toNat_sub_of_le _ _ enough⟩

end TailBudget

/-! ## What a tail keeps -/

/-- The bytes of cached batches. -/
def batchBytes (batches : List DeliveredBatch) : Nat :=
  (batches.map fun batch => batch.bytes.toNat).sum

@[simp] theorem batchBytes_nil : batchBytes [] = 0 :=
  rfl

@[simp] theorem batchBytes_cons (batch : DeliveredBatch) (batches : List DeliveredBatch) :
    batchBytes (batch :: batches) = batch.bytes.toNat + batchBytes batches := by
  simp [batchBytes]

@[simp] theorem batchBytes_append (first second : List DeliveredBatch) :
    batchBytes (first ++ second) = batchBytes first + batchBytes second := by
  simp [batchBytes]

/-- Between what is dropped and what stays there is nothing. -/
theorem batchBytes_split (batches : List DeliveredBatch) (k : Nat) :
    batchBytes (batches.take k) + batchBytes (batches.drop k) = batchBytes batches := by
  rw [← batchBytes_append, List.take_append_drop]

/-- The occupied slots hold the batches, oldest first, and the counters count them. -/
structure PartitionTail.Keeps (tail : PartitionTail) (batches : List DeliveredBatch) : Prop where
  ring : Ring tail.slots tail.head batches
  count : tail.count = batches.length
  bytes : tail.bytes.toNat = batchBytes batches
  within : batchBytes batches ≤ tail.limit.toNat

/-- Without its oldest `k` batches the tail has a free slot and room for so many bytes. -/
def PartitionTail.RoomAfter (tail : PartitionTail) (incoming : UInt64)
    (batches : List DeliveredBatch) (k : Nat) : Prop :=
  k ≤ batches.length ∧ batches.length - k < tail.slots.length ∧
    batchBytes (batches.drop k) + incoming.toNat ≤ tail.limit.toNat

namespace PartitionTail

variable {tail : PartitionTail} {batches : List DeliveredBatch} {incoming : UInt64}

theorem Keeps.slotAt (keeps : tail.Keeps batches) {i : Nat} (inside : i < batches.length) :
    tail.slotAt i = batches[i]? :=
  keeps.ring.get (Nat.lt_of_lt_of_le inside keeps.ring.count_le)

/-- The loop of the plan goes on as long as there is no room. -/
theorem Keeps.roomAfter_iff {front rest : List DeliveredBatch} (keeps : tail.Keeps (front ++ rest))
    (small : incoming ≤ tail.limit) {bytes : UInt64} (left : bytes.toNat = batchBytes rest) :
    tail.RoomAfter incoming (front ++ rest) front.length ↔
      ¬ (rest.length = tail.slots.length ∨ tail.limit - incoming < bytes) := by
  have small' := UInt64.le_iff_toNat_le.1 small
  have capacity := keeps.ring.count_le
  rw [List.length_append] at capacity
  rw [not_or, UInt64.lt_iff_toNat_lt, UInt64.toNat_sub_of_le _ _ small, left, RoomAfter,
    List.drop_left, List.length_append]
  omega

/-- The plan drops the batches of `front` and goes on with the rest. -/
theorem Keeps.planEvictions {front rest : List DeliveredBatch}
    (keeps : tail.Keeps (front ++ rest)) (small : incoming ≤ tail.limit) {bytes removed : UInt64}
    (left : bytes.toNat = batchBytes rest) (gone : removed.toNat = batchBytes front)
    (needed : ∀ k < front.length, ¬ tail.RoomAfter incoming (front ++ rest) k) :
    ∃ k removed', tail.planEvictions incoming rest.length front.length bytes removed =
        some (k, removed') ∧
      IsLeast {k | tail.RoomAfter incoming (front ++ rest) k} k ∧
      removed'.toNat = batchBytes ((front ++ rest).take k) := by
  have room := keeps.roomAfter_iff small left
  have stops (enough : tail.RoomAfter incoming (front ++ rest) front.length) :
      IsLeast {k | tail.RoomAfter incoming (front ++ rest) k} front.length ∧
        removed.toNat = batchBytes ((front ++ rest).take front.length) := by
    refine ⟨⟨enough, fun k roomy => Nat.le_of_not_lt fun less => needed k less roomy⟩, ?_⟩
    rw [List.take_left]
    exact gone
  cases rest with
  | nil =>
      have small' := UInt64.le_iff_toNat_le.1 small
      have slots := Nat.zero_lt_of_lt keeps.ring.head_lt
      have enough : ¬ (tail.slots.length = 0 ∨ tail.limit - incoming < bytes) := by
        rw [not_or, UInt64.lt_iff_toNat_lt, UInt64.toNat_sub_of_le _ _ small, left]
        rw [batchBytes_nil]
        omega
      refine ⟨front.length, removed, ?_, stops (room.2 ?_)⟩
      · rw [List.length_nil, PartitionTail.planEvictions, if_neg enough]
      · rw [List.length_nil]
        exact fun wrong => enough (wrong.imp_left Eq.symm)
  | cons batch rest =>
      rw [List.length_cons, PartitionTail.planEvictions]
      by_cases more : rest.length + 1 = tail.slots.length ∨ tail.limit - incoming < bytes
      swap
      · rw [if_neg more]
        exact ⟨front.length, removed, rfl, stops (room.2 more)⟩
      have slot : tail.slotAt front.length = some batch := by
        rw [keeps.slotAt (by simp)]
        simp
      have whole := keeps.within
      have limit := tail.limit.toNat_lt
      rw [batchBytes_append, batchBytes_cons] at whole
      rw [batchBytes_cons] at left
      have fits : ¬ bytes < batch.bytes := by
        rw [UInt64.lt_iff_toNat_lt]
        omega
      have left' : (bytes - batch.bytes).toNat = batchBytes rest := by
        rw [UInt64.toNat_sub_of_le _ _ (UInt64.not_lt.1 fits)]
        omega
      have gone' : (removed + batch.bytes).toNat = batchBytes (front ++ [batch]) := by
        rw [UInt64.toNat_add, gone, batchBytes_append, batchBytes_cons, Nat.mod_eq_of_lt (by omega)]
        rfl
      have same : front ++ batch :: rest = front ++ [batch] ++ rest := by simp
      have needed' : ∀ k < (front ++ [batch]).length,
          ¬ tail.RoomAfter incoming (front ++ [batch] ++ rest) k := by
        intro k less
        rw [← same]
        rw [List.length_append, List.length_singleton] at less
        rcases Nat.lt_succ_iff_lt_or_eq.1 less with before | rfl
        · exact needed k before
        · exact fun roomy => room.1 roomy more
      rw [same] at keeps ⊢
      have later := keeps.planEvictions small left' gone' needed'
      rw [List.length_append, List.length_singleton] at later
      simp only [if_pos more, slot, if_neg fits]
      exact later
termination_by rest.length

/-- The plan evicts the oldest batches, and only as many as have to go. -/
theorem Keeps.evictionPlan (keeps : tail.Keeps batches) (small : incoming ≤ tail.limit) :
    ∃ k removed, tail.evictionPlan incoming = some (k, removed) ∧
      IsLeast {k | tail.RoomAfter incoming batches k} k ∧
      removed.toNat = batchBytes (batches.take k) := by
  have slots := Nat.zero_lt_of_lt keeps.ring.head_lt
  have possible : ¬ (tail.limit < incoming ∨ tail.slots.length = 0) :=
    not_or.2 ⟨UInt64.not_lt.2 small, slots.ne'⟩
  have whole : tail.Keeps ([] ++ batches) := keeps
  have none : (0 : UInt64).toNat = batchBytes [] := rfl
  have planned := whole.planEvictions small keeps.bytes none (by simp)
  rw [PartitionTail.evictionPlan, if_neg possible, keeps.count]
  exact planned

/-- The oldest batch goes. -/
theorem Keeps.evictOne {batch : DeliveredBatch} (keeps : tail.Keeps (batch :: batches)) :
    tail.evictOne.Keeps batches := by
  have first : tail.slotAt 0 = some batch := keeps.slotAt (by simp)
  have count := keeps.count
  have bytes := keeps.bytes
  have within := keeps.within
  rw [batchBytes_cons] at bytes within
  refine ⟨?_, ?_, ?_, ?_⟩
  · exact keeps.ring.pop
  · change tail.count - 1 = batches.length
    rw [count]
    rfl
  · change (tail.bytes - (tail.slotAt 0).elim 0 DeliveredBatch.bytes).toNat = _
    rw [first, Option.elim_some, UInt64.toNat_sub_of_le _ _ (by rw [UInt64.le_iff_toNat_le]; omega)]
    omega
  · change batchBytes batches ≤ tail.limit.toNat
    omega

/-- The oldest batches go first. -/
theorem Keeps.evict (keeps : tail.Keeps batches) {k : Nat} (inside : k ≤ batches.length) :
    (tail.evict k).Keeps (batches.drop k) ∧ (tail.evict k).limit = tail.limit ∧
      (tail.evict k).closed = tail.closed ∧ (tail.evict k).slots.length = tail.slots.length := by
  induction k generalizing tail batches with
  | zero => exact ⟨keeps, rfl, rfl, rfl⟩
  | succ k ih =>
      cases batches with
      | nil => cases inside
      | cons batch batches =>
          obtain ⟨kept, limit, closed, slots⟩ := ih keeps.evictOne (Nat.le_of_succ_le_succ inside)
          refine ⟨kept, limit, closed, slots.trans ?_⟩
          exact List.length_set

/-- A batch that fits is kept behind the others. -/
theorem Keeps.insert (keeps : tail.Keeps batches) (room : batches.length < tail.slots.length)
    {batch : DeliveredBatch} (fits : batchBytes batches + batch.bytes.toNat ≤ tail.limit.toNat) :
    (tail.insert batch).Keeps (batches ++ [batch]) := by
  have limit := tail.limit.toNat_lt
  have total : batchBytes (batches ++ [batch]) = batchBytes batches + batch.bytes.toNat := by
    rw [batchBytes_append, batchBytes_cons]
    rfl
  refine ⟨?_, ?_, ?_, ?_⟩
  · have pushed := keeps.ring.push room batch
    rw [← keeps.count] at pushed
    exact pushed
  · change tail.count + 1 = _
    rw [keeps.count, List.length_append, List.length_singleton]
  · change (tail.bytes + batch.bytes).toNat = _
    rw [UInt64.toNat_add, keeps.bytes, total, Nat.mod_eq_of_lt (by omega)]
  · rw [total]
    exact fits

theorem Keeps.emptied (keeps : tail.Keeps batches) : tail.emptied.Keeps [] :=
  ⟨keeps.ring.emptied, rfl, rfl, Nat.zero_le _⟩

theorem keeps_new {tailSlots : UInt32} {tailBytes : UInt64}
    (made : newPartitionTail tailSlots tailBytes = .ok (some tail)) : tail.Keeps [] := by
  unfold newPartitionTail at made
  split at made
  · cases made
  · simp only [bind_eq_ok, failIf_eq_ok, exists_const, not_or, pure_eq_ok, Except.ok.injEq,
      Option.some.injEq] at made
    obtain ⟨⟨slots, -⟩, -, rfl⟩ := made
    have positive : 0 < tailSlots.toNat :=
      Nat.pos_of_ne_zero fun zero => slots (UInt32.toNat_inj.1 zero)
    exact ⟨.of_replicate positive, rfl, rfl, Nat.zero_le _⟩

end PartitionTail

/-! ## Shared tails -/

/-- A tail, and whether the store's budget is attached to it. -/
structure SharedTail where
  tail : PartitionTail
  attached : Bool

namespace SharedTail

def attachBudget (shared : SharedTail) : SharedTail :=
  if shared.tail.closed = true ∨ shared.tail.count ≠ 0 then shared
  else { shared with attached := true }

/-- Give bytes back to the budget of the tail. -/
def released (shared : SharedTail) (budget : TailBudget) : TailBudget :=
  if shared.attached then budget.release shared.tail.bytes else budget

/-- `free` and `budgetFree` tell that the locks of the tail and of the budget are not taken. -/
def offer (shared : SharedTail) (budget : TailBudget) (free budgetFree : Bool) (topic : TopicID)
    (partition : UInt32) (records : List Record) (durableEnd : UInt64) : SharedTail × TailBudget :=
  if free = false ∨ shared.tail.closed = true then (shared, budget)
  else
    match newDeliveredBatch topic partition records durableEnd with
    | none => (shared, budget)
    | some batch =>
        if shared.tail.limit < batch.bytes then (shared, budget)
        else
          match shared.tail.evictionPlan batch.bytes with
          | none => (shared, budget)
          | some (evictions, removed) =>
              let tail := (shared.tail.evict evictions).insert batch
              if shared.attached = false then ({ shared with tail }, budget)
              else if budgetFree = false then (shared, budget)
              else
                match budget.tryReplaceLocked removed batch.bytes with
                | none => (shared, budget)
                | some budget => ({ shared with tail }, budget)

def close (shared : SharedTail) (budget : TailBudget) : SharedTail × TailBudget :=
  if shared.tail.closed then (shared, budget)
  else ({ shared with tail := shared.tail.close }, shared.released budget)

def clear (shared : SharedTail) (budget : TailBudget) : SharedTail × TailBudget :=
  if shared.tail.closed = true ∨ shared.tail.count = 0 then (shared, budget)
  else ({ shared with tail := shared.tail.clear }, shared.released budget)

/-- The bytes that the tail has taken from the budget. -/
def taken (shared : SharedTail) : Nat :=
  if shared.attached then shared.tail.bytes.toNat else 0

variable {shared : SharedTail} {budget : TailBudget} {free budgetFree : Bool} {topic : TopicID}
  {partition : UInt32} {records : List Record} {durableEnd : UInt64} {batches : List DeliveredBatch}

/-- Seen from its tail, the offer is made or given up. -/
theorem offer_tail : ∃ free', (shared.offer budget free budgetFree topic partition records
    durableEnd).1.tail = shared.tail.offer free' topic partition records durableEnd := by
  have gives_up : shared.tail = shared.tail.offer false topic partition records durableEnd := by
    simp [PartitionTail.offer]
  unfold offer
  split
  · exact ⟨false, gives_up⟩
  rename_i tries
  split
  · exact ⟨false, gives_up⟩
  rename_i batch made
  split
  · exact ⟨false, gives_up⟩
  split
  · exact ⟨false, gives_up⟩
  rename_i evictions removed planned
  have offered : (shared.tail.evict evictions).insert batch =
      shared.tail.offer true topic partition records durableEnd := by
    rw [not_or] at tries
    simp [PartitionTail.offer, tries.2, made, planned]
  dsimp only
  split
  · exact ⟨true, offered⟩
  split
  · exact ⟨false, gives_up⟩
  split
  · exact ⟨false, gives_up⟩
  · exact ⟨true, offered⟩

/-- What an offer does to its tail and to the budget. -/
inductive Offers (shared : SharedTail) (budget : TailBudget) (batches : List DeliveredBatch) :
    SharedTail × TailBudget → Prop where
  | kept : Offers shared budget batches (shared, budget)
  /-- The oldest batches that have to go make room for the new one. -/
  | cached {batch : DeliveredBatch} {k : Nat} {tail : PartitionTail} {budget' : TailBudget} :
      IsLeast {k | shared.tail.RoomAfter batch.bytes batches k} k →
      tail.Keeps (batches.drop k ++ [batch]) → tail.limit = shared.tail.limit →
      budget'.limit = budget.limit → budget'.bytes ≤ budget'.limit →
      (shared.attached = true → budget'.bytes.toNat + shared.tail.bytes.toNat =
        budget.bytes.toNat + tail.bytes.toNat) →
      (shared.attached = false → budget' = budget) →
      Offers shared budget batches ({ shared with tail }, budget')

/-- An offer keeps tail and budget in step. -/
theorem offers (keeps : shared.tail.Keeps batches) (within : budget.bytes ≤ budget.limit)
    (enough : shared.attached = true → shared.tail.bytes ≤ budget.bytes) (free budgetFree : Bool)
    (topic : TopicID) (partition : UInt32) (records : List Record) (durableEnd : UInt64) :
    Offers shared budget batches
      (shared.offer budget free budgetFree topic partition records durableEnd) := by
  unfold offer
  split
  · exact .kept
  split
  · exact .kept
  rename_i batch _
  split
  · exact .kept
  rename_i small
  obtain ⟨k, removed, planned, least, gone⟩ := keeps.evictionPlan (UInt64.not_lt.1 small)
  obtain ⟨inside, room, fits⟩ := least.1
  obtain ⟨evicted, limit, -, slots⟩ := keeps.evict inside
  have kept : ((shared.tail.evict k).insert batch).Keeps (batches.drop k ++ [batch]) := by
    refine evicted.insert ?_ ?_
    · rw [List.length_drop, slots]
      exact room
    · rw [limit]
      exact fits
  simp only [planned]
  split
  · rename_i alone
    refine .cached least kept limit rfl within (fun wrong => ?_) fun _ => rfl
    rw [wrong] at alone
    cases alone
  split
  · exact .kept
  split
  · exact .kept
  · rename_i attached _ _ budget' replaced
    have attached : shared.attached = true := by simpa using attached
    have split := batchBytes_split batches k
    have bytes := keeps.bytes
    have held := UInt64.le_iff_toNat_le.1 (enough attached)
    have available : removed ≤ budget.bytes := by
      rw [UInt64.le_iff_toNat_le]
      omega
    obtain ⟨sameLimit, within', sum⟩ :=
      TailBudget.tryReplaceLocked_eq_some available within replaced
    refine .cached least kept limit sameLimit within' (fun _ => ?_) fun wrong => ?_
    · rw [kept.bytes, batchBytes_append, batchBytes_cons, batchBytes_nil, sum, gone, bytes]
      omega
    · rw [attached] at wrong
      cases wrong

/-- Dropping all batches gives their bytes back. -/
theorem released_eq (enough : shared.attached = true → shared.tail.bytes ≤ budget.bytes) :
    (shared.released budget).limit = budget.limit ∧
      (shared.released budget).bytes.toNat + shared.taken = budget.bytes.toNat := by
  unfold released taken
  split
  · rename_i attached
    obtain ⟨limit, sum⟩ := TailBudget.release_eq (enough attached)
    have held := UInt64.le_iff_toNat_le.1 (enough attached)
    exact ⟨limit, by omega⟩
  · exact ⟨rfl, rfl⟩

end SharedTail

/-! ## Runs -/

/-- The tails of a store and their budget. -/
structure Tails where
  budget : TailBudget
  tails : List SharedTail

/-- One operation on one of the tails. -/
inductive TailsStep : Tails → Tails → Prop where
  | made {budget : TailBudget} {tails : List SharedTail} {tailSlots : UInt32} {tailBytes : UInt64}
      {tail : PartitionTail} : newPartitionTail tailSlots tailBytes = .ok (some tail) →
      TailsStep ⟨budget, tails⟩ ⟨budget, tails ++ [⟨tail, false⟩]⟩
  | attachBudget {budget : TailBudget} {before behind : List SharedTail} {shared : SharedTail} :
      TailsStep ⟨budget, before ++ shared :: behind⟩
        ⟨budget, before ++ shared.attachBudget :: behind⟩
  | offer {budget budget' : TailBudget} {before behind : List SharedTail}
      {shared shared' : SharedTail} {free budgetFree : Bool} {topic : TopicID} {partition : UInt32}
      {records : List Record} {durableEnd : UInt64} :
      shared.offer budget free budgetFree topic partition records durableEnd = (shared', budget') →
      TailsStep ⟨budget, before ++ shared :: behind⟩ ⟨budget', before ++ shared' :: behind⟩
  | fetch {s : Tails} {shared : SharedTail} {free : Bool} {topic : TopicID} {partition : UInt32}
      {offset durableEnd : UInt64} {options : FetchOptions}
      {answer : Option (Except GoError FetchResult)} : shared ∈ s.tails →
      shared.tail.fetch free topic partition offset durableEnd options = answer → TailsStep s s
  | clear {budget budget' : TailBudget} {before behind : List SharedTail}
      {shared shared' : SharedTail} : shared.clear budget = (shared', budget') →
      TailsStep ⟨budget, before ++ shared :: behind⟩ ⟨budget', before ++ shared' :: behind⟩
  | close {budget budget' : TailBudget} {before behind : List SharedTail}
      {shared shared' : SharedTail} : shared.close budget = (shared', budget') →
      TailsStep ⟨budget, before ++ shared :: behind⟩ ⟨budget', before ++ shared' :: behind⟩

abbrev TailsRun : Tails → Tails → Prop :=
  Relation.ReflTransGen TailsStep

namespace Tails

/-- The bytes that the attached tails have taken together. -/
def taken (tails : List SharedTail) : Nat :=
  (tails.map SharedTail.taken).sum

/-- A tail among others takes its share. -/
theorem taken_split (before behind : List SharedTail) (shared : SharedTail) :
    taken (before ++ shared :: behind) = taken before + shared.taken + taken behind := by
  simp [taken, Nat.add_assoc]

/-- Every tail counts its batches, and the budget counts the bytes of the attached tails. -/
structure Counted (s : Tails) : Prop where
  /-- The `count` slots from the head on are occupied and no others, and their bytes are
  counted and within the limit of the tail. -/
  keeps : ∀ shared ∈ s.tails, ∃ batches, shared.tail.Keeps batches
  budget : s.budget.bytes.toNat = taken s.tails
  within : s.budget.bytes ≤ s.budget.limit

namespace Counted

variable {budget budget' : TailBudget} {before behind : List SharedTail}
  {shared shared' : SharedTail}

/-- An attached tail holds a part of the budget. -/
theorem enough (counted : Counted ⟨budget, before ++ shared :: behind⟩)
    (attached : shared.attached = true) : shared.tail.bytes ≤ budget.bytes := by
  have total := counted.budget
  have own : shared.taken = shared.tail.bytes.toNat := by rw [SharedTail.taken, if_pos attached]
  rw [taken_split, own] at total
  rw [UInt64.le_iff_toNat_le]
  dsimp only at total
  omega

/-- One tail and the budget change by the same amount. -/
theorem replace (counted : Counted ⟨budget, before ++ shared :: behind⟩)
    (keeps : ∃ batches, shared'.tail.Keeps batches) (within : budget'.bytes ≤ budget'.limit)
    (same : budget'.bytes.toNat + shared.taken = budget.bytes.toNat + shared'.taken) :
    Counted ⟨budget', before ++ shared' :: behind⟩ := by
  have total := counted.budget
  rw [taken_split] at total
  refine ⟨fun other mem => ?_, ?_, within⟩
  · rcases List.mem_append.1 mem with mem | mem
    · exact counted.keeps other (List.mem_append_left _ mem)
    · rcases List.mem_cons.1 mem with rfl | mem
      · exact keeps
      · exact counted.keeps other (List.mem_append_right _ (List.mem_cons_of_mem _ mem))
  · rw [taken_split]
    dsimp only at total ⊢
    omega

/-- A tail that drops its batches gives back what it has taken. -/
theorem dropped (counted : Counted ⟨budget, before ++ shared :: behind⟩) {tail : PartitionTail}
    (keeps : tail.Keeps []) :
    Counted ⟨shared.released budget, before ++ { shared with tail } :: behind⟩ := by
  obtain ⟨limit, sum⟩ := SharedTail.released_eq counted.enough
  have within := UInt64.le_iff_toNat_le.1 counted.within
  have none : SharedTail.taken { shared with tail } = 0 := by
    have bytes : tail.bytes.toNat = 0 := keeps.bytes
    simp [SharedTail.taken, bytes]
  refine counted.replace ⟨[], keeps⟩ ?_ ?_
  · rw [UInt64.le_iff_toNat_le, limit]
    dsimp only at within
    omega
  · rw [none]
    exact sum

end Counted

end Tails

/-- Every step keeps the sum of all tails in the budget. -/
theorem TailsStep.counted {s s' : Tails} (step : TailsStep s s') (counted : s.Counted) :
    s'.Counted := by
  cases step with
  | @made budget tails _ _ tail made =>
      refine ⟨fun shared mem => ?_, ?_, counted.within⟩
      · rcases List.mem_append.1 mem with mem | mem
        · exact counted.keeps shared mem
        · obtain rfl := List.mem_singleton.1 mem
          exact ⟨[], PartitionTail.keeps_new made⟩
      · have total := counted.budget
        simpa [Tails.taken, SharedTail.taken] using total
  | @attachBudget budget before behind shared =>
      obtain ⟨batches, keeps⟩ := counted.keeps shared (by simp)
      unfold SharedTail.attachBudget
      split
      · exact counted
      · rename_i fresh
        rw [not_or, not_not] at fresh
        have none : shared.tail.bytes.toNat = 0 := by
          have empty : batches = [] :=
            List.eq_nil_of_length_eq_zero (keeps.count.symm.trans fresh.2)
          rw [keeps.bytes, empty]
          rfl
        refine counted.replace ⟨batches, keeps⟩ counted.within ?_
        simp [SharedTail.taken, none]
  | @offer budget _ before behind shared _ free budgetFree topic partition records durableEnd
      offered =>
      obtain ⟨batches, keeps⟩ := counted.keeps shared (by simp)
      have offers := SharedTail.offers keeps counted.within counted.enough free budgetFree topic
        partition records durableEnd
      rw [offered] at offers
      cases offers with
      | kept => exact counted
      | @cached _ _ tail _ _ kept _ _ within attached alone =>
          refine counted.replace ⟨_, kept⟩ within ?_
          cases held : shared.attached with
          | true => simpa [SharedTail.taken, held] using attached held
          | false => simp [SharedTail.taken, held, alone held]
  | fetch _ _ => exact counted
  | @clear budget _ before behind shared _ cleared =>
      obtain ⟨batches, keeps⟩ := counted.keeps shared (by simp)
      unfold SharedTail.clear at cleared
      split at cleared
      · obtain ⟨rfl, rfl⟩ := Prod.mk.inj cleared
        exact counted
      · rename_i holds
        obtain ⟨rfl, rfl⟩ := Prod.mk.inj cleared
        refine counted.dropped ?_
        rw [PartitionTail.clear, if_neg holds]
        exact keeps.emptied
  | @close budget _ before behind shared _ closed =>
      obtain ⟨batches, keeps⟩ := counted.keeps shared (by simp)
      unfold SharedTail.close at closed
      split at closed
      · obtain ⟨rfl, rfl⟩ := Prod.mk.inj closed
        exact counted
      · rename_i isOpen
        obtain ⟨rfl, rfl⟩ := Prod.mk.inj closed
        refine counted.dropped ?_
        rw [PartitionTail.close, if_neg isOpen]
        have emptied := keeps.emptied
        exact ⟨emptied.ring, emptied.count, emptied.bytes, emptied.within⟩

/-- Every run keeps the sum of all tails in the budget. -/
theorem TailsRun.counted {s s' : Tails} (run : TailsRun s s') (counted : s.Counted) :
    s'.Counted := by
  induction run with
  | refl => exact counted
  | tail _ step ih => exact step.counted ih

/-- What holds of the tails of a store and their budget at any time. -/
structure TailsAccounted (s : Tails) : Prop extends s.Counted where
  /-- An offer evicts the oldest batches, and only as many as have to go. -/
  offers : ∀ shared ∈ s.tails, ∀ batches, shared.tail.Keeps batches →
    ∀ free budgetFree topic partition records durableEnd,
      SharedTail.Offers shared s.budget batches
        (shared.offer s.budget free budgetFree topic partition records durableEnd)
  /-- Nothing is subtracted that is not there. -/
  enough : ∀ shared ∈ s.tails, shared.attached = true → shared.tail.bytes ≤ s.budget.bytes ∧
    ∀ incoming k removed, shared.tail.evictionPlan incoming = some (k, removed) →
      removed ≤ shared.tail.bytes

/-- Whatever the tails of a store do, in any order and under one budget: what they hold is what is
counted, the counts stay within their limits, and an offer evicts no more than it has to. -/
theorem tails_accounted {limit : UInt64} {s : Tails}
    (run : TailsRun ⟨newTailBudget limit, []⟩ s) : TailsAccounted s := by
  have fresh : Tails.Counted ⟨newTailBudget limit, []⟩ :=
    ⟨by simp, rfl, UInt64.zero_le⟩
  have counted := run.counted fresh
  have enough : ∀ shared ∈ s.tails, shared.attached = true →
      shared.tail.bytes ≤ s.budget.bytes := by
    intro shared mem attached
    obtain ⟨before, behind, split⟩ := List.append_of_mem mem
    have here : Tails.Counted ⟨s.budget, before ++ shared :: behind⟩ := by
      rw [← split]
      exact counted
    exact here.enough attached
  refine ⟨counted, ?_, ?_⟩
  · intro shared mem batches keeps free budgetFree topic partition records durableEnd
    exact SharedTail.offers keeps counted.within (enough shared mem) ..
  · intro shared mem attached
    refine ⟨enough shared mem attached, fun incoming k removed planned => ?_⟩
    obtain ⟨batches, keeps⟩ := counted.keeps shared mem
    have small : incoming ≤ shared.tail.limit := by
      by_contra large
      rw [PartitionTail.evictionPlan, if_pos (.inl (UInt64.not_le.1 large))] at planned
      cases planned
    obtain ⟨_, _, planned', -, gone⟩ := keeps.evictionPlan small
    obtain ⟨rfl, rfl⟩ := Prod.mk.inj (Option.some.inj (planned.symm.trans planned'))
    have split := batchBytes_split batches k
    have bytes := keeps.bytes
    rw [UInt64.le_iff_toNat_le]
    omega

namespace SharedTails

def record : Record :=
  { topic := 2, partition := 0, offset := 0, timestamp := 0, key := none, value := some [1]
    headers := [] }

/-- A new tail of two slots with the budget attached. -/
def fresh : SharedTail :=
  { tail :=
      { slots := [none, none], head := 0, count := 0, bytes := 0, limit := 64, closed := false }
    attached := true }

/-- Offer the record at an offset. -/
def offered (shared : SharedTail) (budget : TailBudget) (offset : UInt64) :
    SharedTail × TailBudget :=
  shared.offer budget true true 2 0 [{ record with offset }] (offset + 1)

theorem step_offered (before behind : List SharedTail) (shared : SharedTail) (budget : TailBudget)
    (offset : UInt64) : TailsStep ⟨budget, before ++ shared :: behind⟩
      ⟨(offered shared budget offset).2, before ++ (offered shared budget offset).1 :: behind⟩ :=
  .offer rfl

/-- The first offer to one tail, one to another tail, and the second one to the first tail. -/
def first := offered fresh (newTailBudget 80) 0

def other := offered fresh first.2 0

def second := offered first.1 other.2 1

/-- Two tails share a budget; the last offer has to evict the batch before it. -/
theorem evicted_accounted : ∃ s, TailsRun ⟨newTailBudget 80, []⟩ s ∧ s.budget.bytes = 74 ∧
    s.tails.map (fun shared => (shared.tail.head, shared.tail.count)) = [(1, 1), (0, 1)] ∧
    TailsAccounted s := by
  have new : newPartitionTail 2 64 = .ok (some fresh.tail) := rfl
  have both : TailsRun ⟨newTailBudget 80, []⟩ ⟨newTailBudget 80, [fresh] ++ fresh :: []⟩ :=
    .tail (.tail (.tail (.single (.made new)) (@TailsStep.attachBudget _ [] [] _)) (.made new))
      (@TailsStep.attachBudget _ [fresh] [] _)
  have run : TailsRun ⟨newTailBudget 80, []⟩ ⟨second.2, [] ++ second.1 :: [other.1]⟩ :=
    .tail (.tail (.tail both (step_offered [] [fresh] fresh _ 0))
      (step_offered [first.1] [] fresh _ 0)) (step_offered [] [other.1] first.1 _ 1)
  exact ⟨_, run, by decide +kernel, by decide +kernel, tails_accounted run⟩

end SharedTails

end Immulog
