import Immulog.Calls
import Immulog.OffsetHistory

/-!
Requests of `OpenConsumerGroup`.

`canonicalGroupMembers` and `explicitStartMap` forget the order in which a caller lists
members, subscriptions and explicit starts, and nothing else: two requests have the same
canonical form exactly if they ask for the same.
-/

namespace Immulog

open Lib Proc Std

/-! ## Canonical members -/

/-- A set with more keys. -/
def addKeys (added : List TopicKey) (keys : GoSet TopicKey) : GoSet TopicKey :=
  added.foldl (fun keys key => keys.insert key ()) keys

theorem mem_addKeys {added : List TopicKey} {keys : GoSet TopicKey} {key : TopicKey} :
    key ∈ addKeys added keys ↔ key ∈ added ∨ key ∈ keys := by
  unfold addKeys
  rw [contains_foldl_insert (f := fun key : TopicKey => key)]
  simp

theorem GoSet.ext {keys keys' : GoSet TopicKey} (same : ∀ key, key ∈ keys ↔ key ∈ keys') :
    keys = keys' := by
  apply ExtTreeMap.ext_getElem?
  intro key
  have here := same key
  rw [← ExtTreeMap.isSome_getElem?_iff_mem, ← ExtTreeMap.isSome_getElem?_iff_mem] at here
  cases left : keys[key]? with
  | none => cases right : keys'[key]? with
    | none => rfl
    | some _ => simp [left, right] at here
  | some _ => cases right : keys'[key]? with
    | none => simp [left, right] at here
    | some _ => rfl

theorem addKeys_perm {added added' : List TopicKey} (perm : added.Perm added')
    (keys : GoSet TopicKey) : addKeys added keys = addKeys added' keys := by
  apply GoSet.ext
  intro key
  rw [mem_addKeys, mem_addKeys, perm.mem_iff]

theorem addKeys_append (first second : List TopicKey) (keys : GoSet TopicKey) :
    addKeys (first ++ second) keys = addKeys second (addKeys first keys) :=
  List.foldl_append

theorem size_insert_new {keys : GoSet TopicKey} {key : TopicKey} (fresh : key ∉ keys) :
    (keys.insert key ()).size = keys.size + 1 := by
  rw [ExtTreeMap.mem_iff_contains] at fresh
  rw [ExtTreeMap.size_insert, if_neg fresh]

theorem size_addKeys {added : List TopicKey} {keys : GoSet TopicKey} (distinct : added.Nodup)
    (fresh : ∀ key ∈ added, key ∉ keys) : (addKeys added keys).size = keys.size + added.length := by
  induction added generalizing keys with
  | nil => rfl
  | cons key added ih =>
      rw [List.nodup_cons] at distinct
      have later : ∀ other ∈ added, other ∉ keys.insert key () := by
        intro other mem inserted
        rcases ExtTreeMap.mem_insert.1 inserted with same | before
        · obtain rfl := LawfulEqOrd.eq_of_compare same
          exact distinct.1 mem
        · exact fresh other (List.mem_cons_of_mem key mem) before
      change (addKeys added (keys.insert key ())).size = _
      rw [ih distinct.2 later, size_insert_new (fresh key List.mem_cons_self), List.length_cons]
      omega

/-- The subscriptions of a member are new and distinct. -/
theorem addSubscriptions_eq_ok {previous : Option TopicKey} {subscriptions : List TopicKey}
    {keys keys' : GoSet TopicKey} (seen : ∀ key, previous = some key → key ∈ keys)
    (small : keys.size ≤ maxSubscriptionKeys) :
    addSubscriptions previous subscriptions keys = .ok keys' ↔
      subscriptions.Nodup ∧ (∀ key ∈ subscriptions, key ∉ keys) ∧
        keys.size + subscriptions.length ≤ maxSubscriptionKeys ∧
        keys' = addKeys subscriptions keys := by
  induction subscriptions generalizing previous keys with
  | nil =>
      simp only [addSubscriptions, pure_eq_ok, Except.ok.injEq]
      simp [small, addKeys, eq_comm]
  | cons key subscriptions ih =>
      simp only [addSubscriptions, bind_eq_ok, failIf_eq_ok, exists_const, Nat.not_lt]
      constructor
      · rintro ⟨-, fresh, room, later⟩
        rw [ih (by simp) room, size_insert_new fresh] at later
        obtain ⟨distinct, others, bounded, rfl⟩ := later
        refine ⟨List.nodup_cons.2 ⟨?_, distinct⟩, ?_, ?_, rfl⟩
        · intro mem
          exact others key mem ExtTreeMap.mem_insert_self
        · intro other mem
          rcases List.mem_cons.1 mem with rfl | mem
          · exact fresh
          · intro before
            exact others other mem (ExtTreeMap.mem_insert.2 (.inr before))
        · rw [List.length_cons]
          omega
      · rintro ⟨distinct, fresh, bounded, rfl⟩
        rw [List.nodup_cons] at distinct
        rw [List.length_cons] at bounded
        have new := fresh key List.mem_cons_self
        refine ⟨fun same => new (seen key same), new, ?_, ?_⟩
        · rw [size_insert_new new]
          omega
        · rw [ih (by simp) (by rw [size_insert_new new]; omega), size_insert_new new]
          refine ⟨distinct.2, ?_, by omega, rfl⟩
          intro other mem inserted
          rcases ExtTreeMap.mem_insert.1 inserted with same | before
          · obtain rfl := LawfulEqOrd.eq_of_compare same
            exact distinct.1 mem
          · exact fresh other (List.mem_cons_of_mem key mem) before

theorem sortKeys_perm (keys : List TopicKey) : (sortKeys keys).Perm keys :=
  perm_sortBy _ keys

/-- Members become canonical when their keys are valid, all different and not too many. -/
theorem canonicalMembers_eq_ok {specs members members' : List (List TopicKey)}
    {keys keys' : GoSet TopicKey} (small : keys.size ≤ maxSubscriptionKeys) :
    canonicalMembers specs members keys = .ok (members', keys') ↔
      (∀ key ∈ specs.flatten, ¬ InvalidSubscription key) ∧ specs.flatten.Nodup ∧
        (∀ key ∈ specs.flatten, key ∉ keys) ∧
        keys.size + specs.flatten.length ≤ maxSubscriptionKeys ∧
        members' = members ++ specs.map sortKeys ∧ keys' = addKeys specs.flatten keys := by
  induction specs generalizing members keys with
  | nil =>
      simp only [canonicalMembers, pure_eq_ok, Except.ok.injEq, Prod.mk.injEq]
      simp [small, addKeys, eq_comm]
  | cons subscriptions specs ih =>
      have length := (sortKeys_perm subscriptions).length_eq
      simp only [canonicalMembers, bind_eq_ok, failIf_eq_ok, exists_const, List.flatten_cons,
        List.map_cons, List.length_append]
      constructor
      · rintro ⟨valid, keys₁, adding, later⟩
        rw [addSubscriptions_eq_ok (by simp) small, length] at adding
        obtain ⟨distinct, fresh, room, rfl⟩ := adding
        rw [addKeys_perm (sortKeys_perm subscriptions)] at later
        rw [(sortKeys_perm subscriptions).nodup_iff] at distinct
        replace fresh : ∀ key ∈ subscriptions, key ∉ keys := fun key mem =>
          fresh key ((sortKeys_perm subscriptions).mem_iff.2 mem)
        have size := size_addKeys distinct fresh
        rw [ih (by omega), size] at later
        obtain ⟨valid', distinct', fresh', room', rfl, rfl⟩ := later
        refine ⟨?_, ?_, ?_, by omega, by simp, by rw [addKeys_append]⟩
        · intro key mem invalid
          rcases List.mem_append.1 mem with mem | mem
          · exact valid ⟨key, mem, invalid⟩
          · exact valid' key mem invalid
        · rw [List.nodup_append]
          refine ⟨distinct, distinct', ?_⟩
          rintro key mem _ mem' rfl
          exact fresh' key mem' (mem_addKeys.2 (.inl mem))
        · intro key mem before
          rcases List.mem_append.1 mem with mem | mem
          · exact fresh key mem before
          · exact fresh' key mem (mem_addKeys.2 (.inr before))
      · rintro ⟨valid, distinct, fresh, room, rfl, rfl⟩
        rw [List.nodup_append] at distinct
        obtain ⟨distinct, distinct', apart⟩ := distinct
        have first : ∀ key ∈ subscriptions, key ∉ keys := fun key mem =>
          fresh key (List.mem_append_left _ mem)
        have size := size_addKeys distinct first
        refine ⟨?_, addKeys subscriptions keys, ?_, ?_⟩
        · rintro ⟨key, mem, invalid⟩
          exact valid key (List.mem_append_left _ mem) invalid
        · rw [addSubscriptions_eq_ok (by simp) small, length]
          refine ⟨(sortKeys_perm subscriptions).nodup_iff.2 distinct, ?_, by omega,
            addKeys_perm (sortKeys_perm subscriptions).symm keys⟩
          intro key mem
          exact first key ((sortKeys_perm subscriptions).mem_iff.1 mem)
        · rw [ih (by omega), size]
          refine ⟨fun key mem => valid key (List.mem_append_right _ mem), distinct', ?_, by omega,
            by simp, by rw [addKeys_append]⟩
          intro key mem added
          rcases mem_addKeys.1 added with before | before
          · exact apart key before key mem rfl
          · exact fresh key (List.mem_append_right _ mem) before

/-- The members in the order of their sorted subscriptions. -/
def canonicalForm (specs : List (List TopicKey)) : List (List TopicKey) :=
  sortBy (List.compareLex compareTopicKey) (specs.map sortKeys)

/-- The members that a request may list. -/
structure MembersAllowed (specs : List (List TopicKey)) : Prop where
  some : specs.length ≠ 0
  few : specs.length ≤ maxAssignmentMembers
  valid : ∀ key ∈ specs.flatten, ¬ InvalidSubscription key
  distinct : specs.flatten.Nodup
  bounded : specs.flatten.length ≤ maxSubscriptionKeys

/-- The members of a request, accepted and in canonical form. -/
theorem canonicalGroupMembers_eq_ok {specs members : List (List TopicKey)} {keys : GoSet TopicKey} :
    canonicalGroupMembers specs = .ok (members, keys) ↔
      MembersAllowed specs ∧ members = canonicalForm specs ∧ keys = addKeys specs.flatten ∅ := by
  have empty : (∅ : GoSet TopicKey).size ≤ maxSubscriptionKeys := by simp
  simp only [canonicalGroupMembers, bind_eq_ok, failIf_eq_ok, exists_const, not_or, Nat.not_lt,
    Prod.exists, pure_eq_ok, Except.ok.injEq, Prod.mk.injEq, canonicalMembers_eq_ok empty]
  constructor
  · rintro ⟨⟨nonempty, few⟩, sorted, keys', ⟨valid, distinct, -, bounded, rfl, rfl⟩, rfl, rfl⟩
    refine ⟨⟨nonempty, few, valid, distinct, by simpa using bounded⟩, ?_, rfl⟩
    rw [List.nil_append]
    rfl
  · rintro ⟨allowed, rfl, rfl⟩
    refine ⟨⟨allowed.some, allowed.few⟩, specs.map sortKeys, addKeys specs.flatten ∅,
      ⟨allowed.valid, allowed.distinct, by simp, by simpa using allowed.bounded, rfl, rfl⟩,
        rfl, rfl⟩

instance : TransCmp compareTopicKey := inferInstanceAs (TransOrd TopicKey)

instance : LawfulEqCmp compareTopicKey := inferInstanceAs (LawfulEqOrd TopicKey)

/-- The canonical form forgets exactly the order of members and subscriptions. -/
theorem canonicalForm_eq_iff {specs specs' : List (List TopicKey)} :
    canonicalForm specs = canonicalForm specs' ↔ nested specs = nested specs' := by
  rw [nested_eq_iff sortKeys_perm fun x y perm => sortBy_eq_iff.2 perm]
  exact sortBy_eq_iff

theorem canonicalForm_flatten (specs : List (List TopicKey)) :
    (canonicalForm specs).flatten.Perm specs.flatten := by
  have each : ((specs.map sortKeys).flatten).Perm specs.flatten := by
    induction specs with
    | nil => exact .refl _
    | cons keys specs ih =>
        rw [List.map_cons, List.flatten_cons, List.flatten_cons]
        exact (sortKeys_perm keys).append ih
  exact (perm_sortBy _ (specs.map sortKeys)).flatten.trans each

/-- Distinct subscriptions ascend in every member. -/
theorem ascending_canonicalForm {specs : List (List TopicKey)} (distinct : specs.flatten.Nodup)
    {keys : List TopicKey} (mem : keys ∈ canonicalForm specs) :
    keys.Pairwise fun a b => compare a b = .lt := by
  obtain ⟨origin, listed, rfl⟩ := List.mem_map.1 ((perm_sortBy _ _).mem_iff.1 mem)
  have once : (origin.map fun key => key).Nodup := by
    rw [List.map_id']
    exact (List.nodup_flatten.1 distinct).1 origin listed
  have sorted : ((sortKeys origin).map fun key => key).Pairwise fun a b =>
      compareTopicKey a b = .lt := ascending_sortBy_on once
  rwa [List.map_id'] at sorted

/-- The order of members and keys does not matter. -/
theorem MembersAllowed.reorder {specs specs' : List (List TopicKey)}
    (allowed : MembersAllowed specs) (same : nested specs = nested specs') :
    MembersAllowed specs' := by
  have perm := nested_flatten same
  have length := nested_length same
  exact ⟨length ▸ allowed.some, length ▸ allowed.few,
    fun key mem => allowed.valid key (perm.mem_iff.2 mem), perm.nodup_iff.1 allowed.distinct,
    perm.length_eq ▸ allowed.bounded⟩

/-! ## Explicit starts -/

/-- The explicit starts that a request may list. -/
structure StartsAllowed (starts : List (TopicKey × UInt64)) : Prop where
  valid : ∀ start ∈ starts, ¬ InvalidSubscription start.1
  distinct : (starts.map Prod.fst).Nodup

/-- Explicit starts are accepted when they are allowed and no key comes twice. -/
theorem explicitStartMap_eq_ok {starts : List (TopicKey × UInt64)}
    {before after : ExtTreeMap TopicKey UInt64} :
    explicitStartMap starts before = .ok after ↔
      StartsAllowed starts ∧ (∀ start ∈ starts, start.1 ∉ before) ∧
        after = starts.foldl (fun m start => m.insert start.1 start.2) before := by
  induction starts generalizing before with
  | nil =>
      simp only [explicitStartMap, pure_eq_ok, Except.ok.injEq]
      constructor
      · rintro rfl
        exact ⟨⟨by simp, by simp⟩, by simp, rfl⟩
      · rintro ⟨-, -, rfl⟩
        rfl
  | cons start starts ih =>
      simp only [explicitStartMap, bind_eq_ok, failIf_eq_ok, exists_const, ih]
      constructor
      · rintro ⟨valid, fresh, ⟨valid', distinct⟩, others, rfl⟩
        refine ⟨⟨?_, ?_⟩, ?_, rfl⟩
        · rintro other mem
          rcases List.mem_cons.1 mem with rfl | mem
          · exact valid
          · exact valid' other mem
        · rw [List.map_cons, List.nodup_cons]
          refine ⟨?_, distinct⟩
          intro mem
          obtain ⟨other, inside, same⟩ := List.mem_map.1 mem
          exact others other inside (same ▸ ExtTreeMap.mem_insert_self)
        · intro other mem
          rcases List.mem_cons.1 mem with rfl | mem
          · exact fresh
          · intro there
            exact others other mem (ExtTreeMap.mem_insert.2 (.inr there))
      · rintro ⟨⟨valid, distinct⟩, fresh, rfl⟩
        rw [List.map_cons, List.nodup_cons] at distinct
        refine ⟨valid start List.mem_cons_self, fresh start List.mem_cons_self,
          ⟨fun other mem => valid other (List.mem_cons_of_mem start mem), distinct.2⟩, ?_, rfl⟩
        intro other mem inserted
        rcases ExtTreeMap.mem_insert.1 inserted with same | there
        · have found : start.1 = other.1 := LawfulEqOrd.eq_of_compare same
          exact distinct.1 (found ▸ List.mem_map_of_mem mem)
        · exact fresh other (List.mem_cons_of_mem start mem) there

theorem explicitStartMap_empty {starts : List (TopicKey × UInt64)}
    {found : ExtTreeMap TopicKey UInt64} :
    explicitStartMap starts ∅ = .ok found ↔ StartsAllowed starts ∧ found = mapOf starts := by
  rw [explicitStartMap_eq_ok]
  simp [mapOf]

/-- The explicit starts name exactly the keys. -/
theorem mem_iff_of_sameKeySet {keys : GoSet TopicKey} {starts : ExtTreeMap TopicKey UInt64}
    (same : sameKeySet keys starts = true) {key : TopicKey} : key ∈ starts ↔ key ∈ keys := by
  simp only [sameKeySet, decide_eq_true_eq] at same
  obtain ⟨size, inside⟩ := same
  have covered : ∀ other ∈ keys, other ∈ starts := by
    intro other mem
    obtain ⟨_, found⟩ := Option.isSome_iff_exists.1 (ExtTreeMap.isSome_getElem?_iff_mem.2 mem)
    exact inside _ (ExtTreeMap.mem_toList_iff_getElem?_eq_some.2 found)
  refine ⟨fun mem => ?_, covered key⟩
  by_contra absent
  have distinct : (key :: keys.keys).Nodup :=
    List.nodup_cons.2 ⟨fun mem => absent (ExtTreeMap.mem_keys.1 mem), ExtTreeMap.nodup_keys⟩
  have more : (key :: keys.keys).length ≤ starts.size := by
    refine length_le_size distinct fun other there => ?_
    rcases List.mem_cons.1 there with rfl | there
    · exact mem
    · exact covered other (ExtTreeMap.mem_keys.1 there)
  rw [List.length_cons, ExtTreeMap.length_keys] at more
  omega

theorem getElem?_of_startsMatch {stored current : ExtTreeMap TopicKey UInt64}
    (found : explicitStartsMatchKeys stored current = true) {key : TopicKey} {next : UInt64}
    (asked : current[key]? = some next) : stored[key]? = some next := by
  simp only [explicitStartsMatchKeys, decide_eq_true_eq] at found
  exact found (key, next) (ExtTreeMap.mem_toList_iff_getElem?_eq_some.2 asked)

/-! ## Requests -/

theorem normalizeConsumerGroupOptions_eq_ok {options normal : ConsumerGroupOptions} :
    normalizeConsumerGroupOptions options = .ok normal ↔
      invalidStart "consumer group start policy is invalid"
        (orDefault options.start groupStartEarliest) = .ok () ∧
        timeoutOutside "consumer group progress timeout"
          (orDefault options.progressTimeout defaultConsumerProgressTimeout) = .ok () ∧
        ∃ fetch, normalizePollOptions options.fetch = .ok fetch ∧
          normal = ⟨orDefault options.start groupStartEarliest, options.explicitStarts, fetch,
            orDefault options.progressTimeout defaultConsumerProgressTimeout⟩ := by
  simp only [normalizeConsumerGroupOptions, bind_eq_ok, pure_eq_ok, Except.ok.injEq]
  constructor
  · rintro ⟨_, start, _, timeout, fetch, normalized, rfl⟩
    exact ⟨start, timeout, fetch, normalized, rfl⟩
  · rintro ⟨start, timeout, fetch, normalized, rfl⟩
    exact ⟨(), start, (), timeout, fetch, normalized, rfl⟩

/-- What `OpenConsumerGroup` accepts, and the canonical form it goes on with. -/
structure RequestAccepted (groupID : Bytes) (specs : List (List TopicKey))
    (options : ConsumerGroupOptions) (request : GroupRequest) : Prop where
  name : ∃ bytes, appendString [] groupID maxGroupIDBytes = .ok bytes
  normal : normalizeConsumerGroupOptions options = .ok request.options
  members : MembersAllowed specs
  starts : StartsAllowed options.explicitStarts
  covered : request.options.start = groupStartExplicit →
    sameKeySet request.keys request.starts = true
  unneeded : request.options.start ≠ groupStartExplicit → request.starts.size = 0
  members_eq : request.members = canonicalForm specs
  keys_eq : request.keys = addKeys specs.flatten ∅
  starts_eq : request.starts = mapOf options.explicitStarts

/-- What the arguments of a group are checked for. -/
theorem checkGroupArguments_eq_ok {groupID : Bytes} {specs : List (List TopicKey)}
    {options : ConsumerGroupOptions} {request : GroupRequest} :
    checkGroupArguments groupID specs options = .ok request ↔
      RequestAccepted groupID specs options request := by
  simp only [checkGroupArguments, bind_eq_ok, failIf_eq_ok, exists_const, Prod.exists,
    canonicalGroupMembers_eq_ok, explicitStartMap_empty, pure_eq_ok, Except.ok.injEq, not_and,
    Bool.not_eq_false, ne_eq, not_not]
  constructor
  · rintro ⟨bytes, named, normal, normalized, members, keys, ⟨allowed, rfl, rfl⟩, starts,
      ⟨allowedStarts, rfl⟩, covered, unneeded, rfl⟩
    obtain ⟨-, -, fetch, -, rfl⟩ := normalizeConsumerGroupOptions_eq_ok.1 normalized
    exact ⟨⟨bytes, named⟩, normalized, allowed, allowedStarts, covered, unneeded, rfl, rfl, rfl⟩
  · rintro ⟨⟨bytes, named⟩, normalized, allowed, allowedStarts, covered, unneeded, members, keys,
      starts⟩
    obtain ⟨normal, members', keys', starts'⟩ := request
    dsimp only at *
    subst members keys starts
    obtain ⟨-, -, fetch, -, rfl⟩ := normalizeConsumerGroupOptions_eq_ok.1 normalized
    exact ⟨bytes, named, _, normalized, _, _, ⟨allowed, rfl, rfl⟩, _, ⟨allowedStarts, rfl⟩, covered,
      unneeded, rfl⟩

/-- Two requests ask for the same: the same start policy, explicit starts, fetch options and
timeout, defaults included, and the same members with the same subscriptions, in any order. -/
structure SameRequest (specs : List (List TopicKey)) (options : ConsumerGroupOptions)
    (specs' : List (List TopicKey)) (options' : ConsumerGroupOptions) : Prop where
  members : nested specs = nested specs'
  start : orDefault options.start groupStartEarliest = orDefault options'.start groupStartEarliest
  starts : options.explicitStarts.Perm options'.explicitStarts
  fetch : normalizePollOptions options.fetch = normalizePollOptions options'.fetch
  timeout : orDefault options.progressTimeout defaultConsumerProgressTimeout =
    orDefault options'.progressTimeout defaultConsumerProgressTimeout

/-- The canonical forms of two requests agree. -/
structure GroupRequest.Agrees (request request' : GroupRequest) : Prop where
  members : request.members = request'.members
  start : request.options.start = request'.options.start
  starts : request.starts = request'.starts
  fetch : request.options.fetch = request'.options.fetch
  timeout : request.options.progressTimeout = request'.options.progressTimeout

section Requests

variable {groupID : Bytes} {specs specs' : List (List TopicKey)}
  {options options' : ConsumerGroupOptions} {request request' : GroupRequest}

/-- A request that asks for the same is accepted, too. -/
theorem RequestAccepted.again (accepted : RequestAccepted groupID specs options request)
    (same : SameRequest specs options specs' options') :
    ∃ request', RequestAccepted groupID specs' options' request' := by
  obtain ⟨start, timeout, fetch, normalized, options_eq⟩ :=
    normalizeConsumerGroupOptions_eq_ok.1 accepted.normal
  have distinct := (same.starts.map Prod.fst).nodup_iff.1 accepted.starts.distinct
  have keys : addKeys specs.flatten ∅ = addKeys specs'.flatten ∅ :=
    addKeys_perm (nested_flatten same.members) ∅
  have starts : mapOf options.explicitStarts = mapOf options'.explicitStarts :=
    (mapOf_eq_iff accepted.starts.distinct distinct).2 same.starts
  have covered := accepted.covered
  have unneeded := accepted.unneeded
  rw [accepted.keys_eq, accepted.starts_eq, keys, starts, options_eq] at covered
  rw [accepted.starts_eq, starts, options_eq] at unneeded
  refine ⟨⟨⟨orDefault options.start groupStartEarliest, options'.explicitStarts, fetch,
    orDefault options.progressTimeout defaultConsumerProgressTimeout⟩, canonicalForm specs',
    addKeys specs'.flatten ∅, mapOf options'.explicitStarts⟩, accepted.name, ?_,
    accepted.members.reorder same.members, ⟨?_, distinct⟩, covered, unneeded, rfl, rfl, rfl⟩
  · rw [normalizeConsumerGroupOptions_eq_ok]
    rw [same.start] at start ⊢
    rw [same.timeout] at timeout ⊢
    exact ⟨start, timeout, fetch, same.fetch ▸ normalized, rfl⟩
  · intro listed mem
    exact accepted.starts.valid listed (same.starts.mem_iff.2 mem)

/-- Accepted requests ask for the same exactly when their canonical forms agree. -/
theorem RequestAccepted.agrees_iff (accepted : RequestAccepted groupID specs options request)
    (accepted' : RequestAccepted groupID specs' options' request') :
    request.Agrees request' ↔ SameRequest specs options specs' options' := by
  obtain ⟨-, -, fetch, normalized, options_eq⟩ :=
    normalizeConsumerGroupOptions_eq_ok.1 accepted.normal
  obtain ⟨-, -, fetch', normalized', options_eq'⟩ :=
    normalizeConsumerGroupOptions_eq_ok.1 accepted'.normal
  have starts := mapOf_eq_iff accepted.starts.distinct accepted'.starts.distinct
  have members : canonicalForm specs = canonicalForm specs' ↔ _ := canonicalForm_eq_iff
  rw [← accepted.starts_eq, ← accepted'.starts_eq] at starts
  rw [← accepted.members_eq, ← accepted'.members_eq] at members
  constructor
  · intro agrees
    refine ⟨members.1 agrees.members, ?_, starts.1 agrees.starts, ?_, ?_⟩
    · simpa [options_eq, options_eq'] using agrees.start
    · have both := agrees.fetch
      rw [options_eq, options_eq'] at both
      rw [normalized, normalized']
      exact congrArg _ both
    · simpa [options_eq, options_eq'] using agrees.timeout
  · intro same
    refine ⟨members.2 same.members, ?_, starts.2 same.starts, ?_, ?_⟩
    · simpa [options_eq, options_eq'] using same.start
    · rw [options_eq, options_eq']
      exact Except.ok.inj (normalized.symm.trans (same.fetch.trans normalized'))
    · simpa [options_eq, options_eq'] using same.timeout

end Requests

end Immulog
