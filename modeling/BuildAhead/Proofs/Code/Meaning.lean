import BuildAhead.Proofs.Code.Execution
import BuildAhead.Proofs.Json.Canonical

set_option autoImplicit false

/-!
# Code: what JSON values stand for

The value that running code has for a JSON value. An object stands for a map, so the order of its
members plays no part, and of members with one key only the last one counts. Each JSON value stands
for one value, which can be read off its canonical form.
-/

namespace BuildAhead.Json

/-- What a JSON value stands for in code that runs. An object is a map with its keys in ascending
order, each once, with what the last member of that key stands for. -/
inductive Means : Json → Code.Value → Prop where
  | null : Means .null .null
  | bool (b : Bool) : Means (.bool b) (.bool b)
  | int (n : Int) : Means (.int n) (.int n)
  | double (x : Binary64) : Means (.double x) (.double x)
  | text (s : String) : Means (.text s) (.text s)
  | array {items : List Json} {values : List Code.Value} :
      List.Forall₂ Means items values → Means (.array items) (.list values)
  | object {members : List (String × Json)} {entries : List (String × Code.Value)} :
      (entries.map Prod.fst).Pairwise (· < ·) →
      (∀ key, key ∈ entries.map Prod.fst ↔ key ∈ members.map Prod.fst) →
      (∀ key v w, lastMember? key members = some v → (key, w) ∈ entries → Means v w) →
      Means (.object members) (.map (entries.map fun e => (.text e.1, e.2)))

/-- The entries of one map that an object stands for are entries of all, when its members stand for
one value each. -/
theorem mem_of_mem_entries {members : List (String × Json)} {a b : List (String × Code.Value)}
    (hunique : ∀ m ∈ members, ∀ w w', Means m.2 w → Means m.2 w' → w = w')
    (hkeysa : ∀ key, key ∈ a.map Prod.fst ↔ key ∈ members.map Prod.fst)
    (hkeysb : ∀ key, key ∈ b.map Prod.fst ↔ key ∈ members.map Prod.fst)
    (ha : ∀ key v w, lastMember? key members = some v → (key, w) ∈ a → Means v w)
    (hb : ∀ key v w, lastMember? key members = some v → (key, w) ∈ b → Means v w) :
    ∀ e ∈ a, e ∈ b := by
  rintro ⟨key, w⟩ hw
  have hkey : key ∈ members.map Prod.fst := (hkeysa key).1 (List.mem_map_of_mem hw)
  obtain ⟨v, hv⟩ := Option.isSome_iff_exists.1 (isSome_lastMember?.2 hkey)
  obtain ⟨⟨_, w'⟩, hw', rfl⟩ := List.mem_map.1 ((hkeysb key).2 hkey)
  rw [hunique _ (mem_of_lastMember? hv) w w' (ha _ v w hv hw) (hb _ v w' hv hw')]
  exact hw'

theorem eq_of_ascending_entries {a b : List (String × Code.Value)}
    (ha : (a.map Prod.fst).Pairwise (· < ·)) (hb : (b.map Prod.fst).Pairwise (· < ·))
    (h : ∀ e, e ∈ a ↔ e ∈ b) : a = b := by
  have hperm : a.Perm b :=
    (List.perm_ext_iff_of_nodup (nodup_of_ascending ha).of_map (nodup_of_ascending hb).of_map).2 h
  refine hperm.eq_of_pairwise ?_ (List.pairwise_map.1 ha) (List.pairwise_map.1 hb)
  intro x y _ _ hxy hyx
  exact absurd (String.lt_trans hxy hyx) (String.lt_irrefl x.1)

mutual

/-- A JSON value stands for one value only. -/
theorem Means.unique : ∀ {v : Json} {w w' : Code.Value}, Means v w → Means v w' → w = w'
  | .null, _, _, .null, .null => rfl
  | .bool _, _, _, .bool _, .bool _ => rfl
  | .int _, _, _, .int _, .int _ => rfl
  | .double _, _, _, .double _, .double _ => rfl
  | .text _, _, _, .text _, .text _ => rfl
  | .array _, _, _, .array h, .array h' => congrArg _ (means_unique_items h h')
  | .object members, _, _, .object hasc hkeys h, .object hasc' hkeys' h' => by
    have hunique := means_unique_members members
    rw [eq_of_ascending_entries hasc hasc' fun e =>
      ⟨mem_of_mem_entries hunique hkeys hkeys' h h' e,
        mem_of_mem_entries hunique hkeys' hkeys h' h e⟩]

theorem means_unique_items : ∀ {items : List Json} {ws ws' : List Code.Value},
    List.Forall₂ Means items ws → List.Forall₂ Means items ws' → ws = ws'
  | [], _, _, .nil, .nil => rfl
  | _ :: _, _, _, .cons h hrest, .cons h' hrest' => by
    rw [h.unique h', means_unique_items hrest hrest']

theorem means_unique_members : ∀ members : List (String × Json), ∀ m ∈ members,
    ∀ w w', Means m.2 w → Means m.2 w' → w = w'
  | [], _, hm, _, _ => absurd hm List.not_mem_nil
  | (_, v) :: rest, m, hm, w, w' => by
    intro h h'
    rcases List.mem_cons.1 hm with rfl | hm
    · exact h.unique h'
    · exact means_unique_members rest m hm w w' h h'

end

mutual

/-- The integers in a value. -/
def ints : Json → List Int
  | .int n => [n]
  | .array items => intsOfItems items
  | .object members => intsOfMembers members
  | _ => []

def intsOfItems : List Json → List Int
  | [] => []
  | v :: rest => ints v ++ intsOfItems rest

def intsOfMembers : List (String × Json) → List Int
  | [] => []
  | (_, v) :: rest => ints v ++ intsOfMembers rest

end

mutual

/-- The value that code has for a JSON value, with the members of objects as they stand. -/
def denote : Json → Code.Value
  | .null => .null
  | .bool b => .bool b
  | .int n => .int n
  | .double x => .double x
  | .text s => .text s
  | .array items => .list (denoteItems items)
  | .object members => .map (denoteMembers members)

def denoteItems : List Json → List Code.Value
  | [] => []
  | v :: rest => denote v :: denoteItems rest

def denoteMembers : List (String × Json) → List (Code.Value × Code.Value)
  | [] => []
  | (k, v) :: rest => (.text k, denote v) :: denoteMembers rest

end

theorem denoteMembers_eq (members : List (String × Json)) :
    denoteMembers members =
      (members.map fun m => (m.1, denote m.2)).map fun e => (.text e.1, e.2) := by
  induction members with
  | nil => rfl
  | cons m rest ih =>
    obtain ⟨k, v⟩ := m
    rw [denoteMembers, ih]
    rfl

/-- A canonical object stands for an object, when its members do. -/
theorem Means.ofMembers {members : List (String × Json)}
    (h : ∀ m ∈ members, Means m.2 m.2.canonical.denote) :
    Means (.object members) (.map (denoteMembers (canonicalMembers members []))) := by
  have hfst : ((canonicalMembers members []).map fun m => (m.1, denote m.2)).map Prod.fst =
      (canonicalMembers members []).map Prod.fst := by
    rw [List.map_map]
    rfl
  rw [denoteMembers_eq]
  refine .object ?_ ?_ ?_
  · rw [hfst, List.pairwise_map]
    exact canonicalMembers_ascending members .nil
  · intro key
    rw [hfst]
    constructor
    · intro hkey
      obtain ⟨⟨k, c⟩, hmem, rfl⟩ := List.mem_map.1 hkey
      obtain ⟨v, hv, -⟩ := mem_canonicalMembers.1 hmem
      exact isSome_lastMember?.1 (Option.isSome_iff_exists.2 ⟨v, hv⟩)
    · intro hkey
      obtain ⟨v, hv⟩ := Option.isSome_iff_exists.1 (isSome_lastMember?.2 hkey)
      exact List.mem_map.2 ⟨(key, v.canonical), mem_canonicalMembers.2 ⟨v, hv, rfl⟩, rfl⟩
  · intro key v w hlast hmem
    obtain ⟨⟨k, c⟩, hc, heq⟩ := List.mem_map.1 hmem
    cases heq
    obtain ⟨v', hv', rfl⟩ := mem_canonicalMembers.1 hc
    cases hlast.symm.trans hv'
    exact h _ (mem_of_lastMember? hlast)

mutual

/-- The canonical form of a value stands for it. -/
theorem means_canonical : ∀ v : Json, Means v v.canonical.denote
  | .null => .null
  | .bool b => .bool b
  | .int n => .int n
  | .double x => .double x
  | .text s => .text s
  | .array items => .array (means_canonicalItems items)
  | .object members => .ofMembers (means_canonicalMembers members)

theorem means_canonicalItems :
    ∀ items : List Json, List.Forall₂ Means items (denoteItems (canonicalItems items))
  | [] => .nil
  | v :: rest => .cons (means_canonical v) (means_canonicalItems rest)

theorem means_canonicalMembers :
    ∀ members : List (String × Json), ∀ m ∈ members, Means m.2 m.2.canonical.denote
  | [], _, hm => absurd hm List.not_mem_nil
  | (k, v) :: rest, m, hm => by
    rcases List.mem_cons.1 hm with rfl | hm
    · exact means_canonical v
    · exact means_canonicalMembers rest m hm

end

/-- This is the one value that a JSON value stands for. -/
def StandsFor (v : Json) (w : Code.Value) : Prop := ∀ other, Means v other ↔ other = w

theorem standsFor_canonical (v : Json) : StandsFor v v.canonical.denote := by
  intro other
  constructor
  · intro h
    exact h.unique (means_canonical v)
  · rintro rfl
    exact means_canonical v

theorem mem_intsOfMembers {n : Int} {members : List (String × Json)} :
    n ∈ intsOfMembers members ↔ ∃ m ∈ members, n ∈ m.2.ints := by
  induction members with
  | nil => simp [intsOfMembers]
  | cons m rest ih =>
    obtain ⟨k, v⟩ := m
    rw [intsOfMembers, List.mem_append, ih, List.exists_mem_cons_iff]

/-- A canonical object has no other integers, when this is so of the canonical members. -/
theorem mem_ints_ofMembers {members : List (String × Json)} {n : Int}
    (h : ∀ m ∈ members, n ∈ m.2.canonical.ints → n ∈ m.2.ints)
    (hn : n ∈ intsOfMembers (canonicalMembers members [])) : n ∈ intsOfMembers members := by
  obtain ⟨⟨k, c⟩, hmem, hn⟩ := mem_intsOfMembers.1 hn
  obtain ⟨v, hv, rfl⟩ := mem_canonicalMembers.1 hmem
  have hin := mem_of_lastMember? hv
  exact mem_intsOfMembers.2 ⟨(k, v), hin, h _ hin hn⟩

mutual

/-- The canonical form has no other integers. -/
theorem mem_ints_canonical : ∀ (v : Json) (n : Int), n ∈ v.canonical.ints → n ∈ v.ints
  | .null, _, hn => hn
  | .bool _, _, hn => hn
  | .int _, _, hn => hn
  | .double _, _, hn => hn
  | .text _, _, hn => hn
  | .array items, n, hn => mem_ints_canonicalItems items n hn
  | .object members, n, hn =>
    mem_ints_ofMembers (fun m hm => mem_ints_canonicalMembers members m hm n) hn

theorem mem_ints_canonicalItems :
    ∀ (items : List Json) (n : Int), n ∈ intsOfItems (canonicalItems items) → n ∈ intsOfItems items
  | [], _, hn => hn
  | v :: rest, n, hn => by
    rcases List.mem_append.1 hn with hn | hn
    · exact List.mem_append_left _ (mem_ints_canonical v n hn)
    · exact List.mem_append_right _ (mem_ints_canonicalItems rest n hn)

theorem mem_ints_canonicalMembers :
    ∀ members : List (String × Json), ∀ m ∈ members, ∀ n, n ∈ m.2.canonical.ints → n ∈ m.2.ints
  | [], _, hm, _ => absurd hm List.not_mem_nil
  | (_, v) :: rest, m, hm, n => by
    rcases List.mem_cons.1 hm with rfl | hm
    · exact mem_ints_canonical v n
    · exact mem_ints_canonicalMembers rest m hm n

end

end BuildAhead.Json
