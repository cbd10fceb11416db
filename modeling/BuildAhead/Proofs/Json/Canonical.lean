import BuildAhead.Json.Basic
import BuildAhead.Proofs.Collection.Dict

set_option autoImplicit false

/-!
# Json: canonical objects

A canonical object has its keys in ascending order, each once, and each with the canonical value of
its last member.
-/

namespace BuildAhead.Json

/-- The value of the last member with this key. -/
def lastMember? (key : String) (members : List (String × Json)) : Option Json :=
  Dict.lookup key members.reverse

theorem lastMember?_cons (key k : String) (v : Json) (rest : List (String × Json)) :
    lastMember? key ((k, v) :: rest) =
      (lastMember? key rest).or (if k = key then some v else none) := by
  unfold lastMember?
  rw [List.reverse_cons, Dict.lookup_append]
  rfl

theorem isSome_lastMember? {key : String} {members : List (String × Json)} :
    (lastMember? key members).isSome = true ↔ key ∈ members.map Prod.fst := by
  rw [lastMember?, Dict.isSome_lookup, List.map_reverse, List.mem_reverse]

theorem mem_of_lastMember? {key : String} {v : Json} {members : List (String × Json)}
    (h : lastMember? key members = some v) : (key, v) ∈ members :=
  List.mem_reverse.1 (Dict.mem_of_lookup h)

/-- Members are entered at their places. -/
theorem canonicalMembers_ascending (members : List (String × Json)) {sorted : List (String × Json)}
    (h : sorted.Pairwise KeyBefore) :
    (canonicalMembers members sorted).Pairwise KeyBefore := by
  induction members generalizing sorted with
  | nil => exact h
  | cons e rest ih => exact ih (Dict.ascending_alterEntries h)

/-- What stands under a key is its last member, or what stood there before. -/
theorem lookup_canonicalMembers (key : String) (members : List (String × Json))
    {sorted : List (String × Json)} (h : sorted.Pairwise KeyBefore) :
    Dict.lookup key (canonicalMembers members sorted) =
      ((lastMember? key members).map canonical).or (Dict.lookup key sorted) := by
  induction members generalizing sorted with
  | nil => rfl
  | cons e rest ih =>
    obtain ⟨k, v⟩ := e
    have hsorted : (insertMember k (canonical v) sorted).Pairwise KeyBefore :=
      Dict.ascending_alterEntries h
    rw [canonicalMembers, ih hsorted, lastMember?_cons, insertMember, Dict.lookup_alterEntries h]
    cases lastMember? key rest with
    | some last => rfl
    | none =>
      by_cases hk : key = k
      · simp [hk]
      · simp [hk, Ne.symm hk]

/-- The members of a canonical object are the last ones of their keys. -/
theorem mem_canonicalMembers {key : String} {c : Json} {members : List (String × Json)} :
    (key, c) ∈ canonicalMembers members [] ↔
      ∃ v, lastMember? key members = some v ∧ c = canonical v := by
  have hascending : (canonicalMembers members []).Pairwise KeyBefore :=
    canonicalMembers_ascending members .nil
  have hlookup : Dict.lookup key (canonicalMembers members []) =
      (lastMember? key members).map canonical := by
    rw [lookup_canonicalMembers key members .nil]
    exact Option.or_none
  constructor
  · intro hmem
    have hfound := Dict.lookup_of_mem hascending hmem
    rw [hlookup, Option.map_eq_some_iff] at hfound
    obtain ⟨v, hv, rfl⟩ := hfound
    exact ⟨v, hv, rfl⟩
  · intro hgiven
    obtain ⟨v, hv, rfl⟩ := hgiven
    refine Dict.mem_of_lookup ?_
    rw [hlookup, hv]
    rfl

theorem canonicalItems_eq_map (items : List Json) : canonicalItems items = items.map canonical := by
  induction items with
  | nil => rfl
  | cons v rest ih => rw [canonicalItems, ih, List.map_cons]

/-- Members in ascending order with canonical values are those of a canonical object. -/
theorem canonicalMembers_of_ascending {members : List (String × Json)}
    (hascending : members.Pairwise KeyBefore) (hvalues : ∀ m ∈ members, canonical m.2 = m.2) :
    canonicalMembers members [] = members := by
  have hdistinct : (members.reverse.map Prod.fst).Nodup := by
    rw [List.map_reverse, List.nodup_reverse]
    exact nodup_of_ascending (List.pairwise_map.2 hascending)
  have hdict : (⟨canonicalMembers members [], canonicalMembers_ascending members .nil⟩ : Dict Json) =
      ⟨members, hascending⟩ := by
    refine Dict.ext_get? fun key => ?_
    show Dict.lookup key (canonicalMembers members []) = Dict.lookup key members
    rw [lookup_canonicalMembers key members .nil, Dict.lookup, Option.or_none]
    ext c
    rw [Option.map_eq_some_iff]
    constructor
    · rintro ⟨v, hv, rfl⟩
      have hmem : (key, v) ∈ members := mem_of_lastMember? hv
      rw [hvalues _ hmem]
      exact Dict.lookup_of_mem hascending hmem
    · intro hc
      have hmem : (key, c) ∈ members := Dict.mem_of_lookup hc
      exact ⟨c, Dict.lookup_of_mem_of_nodup hdistinct (List.mem_reverse.2 hmem), hvalues _ hmem⟩
  exact congrArg Dict.entries hdict

mutual

/-- A canonical value is its own canonical value. -/
theorem canonical_canonical : ∀ v : Json, v.canonical.canonical = v.canonical
  | .array items => by
    rw [canonical, canonical, canonicalItems_canonicalItems items]
  | .object members => by
    rw [canonical, canonical, canonicalMembers_of_ascending]
    · exact canonicalMembers_ascending members .nil
    · rintro ⟨key, c⟩ hmem
      obtain ⟨v, hv, rfl⟩ := mem_canonicalMembers.1 hmem
      exact canonical_canonical_of_mem members (key, v) (mem_of_lastMember? hv)
  | .null => rfl
  | .bool _ => rfl
  | .int _ => rfl
  | .double _ => rfl
  | .text _ => rfl

theorem canonicalItems_canonicalItems : ∀ items : List Json,
    canonicalItems (canonicalItems items) = canonicalItems items
  | [] => rfl
  | v :: rest => by
    rw [canonicalItems, canonicalItems, canonical_canonical v, canonicalItems_canonicalItems rest]

theorem canonical_canonical_of_mem : ∀ members : List (String × Json), ∀ m ∈ members,
    m.2.canonical.canonical = m.2.canonical
  | [], _, hm => absurd hm List.not_mem_nil
  | (_, v) :: rest, m, hm => by
    rcases List.mem_cons.1 hm with rfl | hrest
    · exact canonical_canonical v
    · exact canonical_canonical_of_mem rest m hrest

end

end BuildAhead.Json
