import SealedMap.Proofs.Exactness
import SealedMap.Proofs.Resolving

/-!
# Builds that reject repeats

A rejecting build of pairs with distinct keys ends with these pairs, whatever
the hash function.  Any other one names the first repeat: no repeat ends before
it, and the key at its end stands nowhere before its start.
-/

namespace SealedMap

open Index (Chained Keyed Placing place holdsAt)

variable {σ K V : Type}

theorem keysOf_ofPair (pairs : List (K × V)) :
    keysOf (pairs.map Entry.ofPair).toArray = pairs.map Prod.fst := by
  rw [keysOf, List.map_map]
  rfl

variable [BEq K]

/-! ## The first repeat -/

def RepeatsAt (keys : List K) (first second : Nat) : Prop :=
  first < second ∧ exists a b,
    keys[first]? = some a ∧ keys[second]? = some b ∧ (a == b) = true

/-- No repeat ends before this one, and none that ends with it starts before it. -/
structure FirstRepeat (keys : List K) (first second : Nat) : Prop where
  repeats : RepeatsAt keys first second
  second_le : forall p q, RepeatsAt keys p q -> second ≤ q
  first_le : forall p, RepeatsAt keys p second -> first ≤ p

theorem repeatsAt_keysOf_iff {entries : Array (Entry K V)} {first second : Nat} :
    RepeatsAt (keysOf entries) first second ↔
      first < second ∧ exists entry, entries[second]? = some entry ∧
        holdsAt entries entry.key first = true := by
  unfold RepeatsAt
  simp only [getElem?_keysOf, Option.map_eq_some_iff]
  constructor
  · intro h
    rcases h with ⟨hlt, _, _, ⟨early, hearly, rfl⟩, ⟨late, hlate, rfl⟩, heq⟩
    exact ⟨hlt, late, hlate, holdsAt_iff.mpr ⟨early, hearly, heq⟩⟩
  · intro h
    rcases h with ⟨hlt, late, hlate, hholds⟩
    rcases holdsAt_iff.mp hholds with ⟨early, hearly, heq⟩
    exact ⟨hlt, early.key, late.key, ⟨early, hearly, rfl⟩, ⟨late, hlate, rfl⟩, heq⟩

theorem repeatsAt_of_repeatAt? {entries : Array (Entry K V)} {pos : Nat} {r : Index.Repeat}
    (h : repeatAt? entries pos = some r) :
    RepeatsAt (keysOf entries) r.first pos := by
  rcases repeatAt?_eq_some_iff.mp h with ⟨_, hlt, entry, hentry, hfirst⟩
  exact repeatsAt_keysOf_iff.mpr
    ⟨hlt, entry, hentry, (firstPosition?_eq_some_iff.mp hfirst).1⟩

theorem FirstRepeat.head?_repeatsOf {entries : Array (Entry K V)} {first second : Nat}
    (h : FirstRepeat (keysOf entries) first second) :
    (repeatsOf entries).head? = some ⟨first, second⟩ := by
  rcases repeatsAt_keysOf_iff.mp h.repeats with ⟨hlt, entry, hentry, hholds⟩
  have hearlier : forall p, p < first -> holdsAt entries entry.key p = false := by
    intro p hp
    apply Bool.eq_false_iff.mpr
    intro hpholds
    have hrepeats : RepeatsAt (keysOf entries) p second :=
      repeatsAt_keysOf_iff.mpr ⟨Nat.lt_trans hp hlt, entry, hentry, hpholds⟩
    exact Nat.not_lt_of_le (h.first_le p hrepeats) hp
  have hbelow : repeatsBelow entries second = [] := by
    apply List.eq_nil_iff_forall_not_mem.mpr
    intro r hr
    rcases mem_repeatsBelow_iff.mp hr with ⟨hrlt, hrepeat⟩
    exact Nat.not_lt_of_le (h.second_le _ _ (repeatsAt_of_repeatAt? hrepeat)) hrlt
  apply SealedMap.head?_repeatsOf hbelow
  exact repeatAt?_eq_some_iff.mpr
    ⟨rfl, hlt, entry, hentry, firstPosition?_eq_some_iff.mpr ⟨hholds, hearlier⟩⟩

theorem Distinct.not_repeatsAt {keys : List K} (h : Distinct keys) (first second : Nat) :
    ¬RepeatsAt keys first second := by
  intro hrepeats
  rcases hrepeats with ⟨hlt, a, b, ha, hb, heq⟩
  rcases List.getElem?_eq_some_iff.mp ha with ⟨hfirst, rfl⟩
  rcases List.getElem?_eq_some_iff.mp hb with ⟨hsecond, rfl⟩
  rw [List.pairwise_iff_getElem.mp h first second hfirst hsecond hlt] at heq
  cases heq

section Equivalence

variable [EquivBEq K]

theorem exists_repeatAt?_of_repeatsAt {entries : Array (Entry K V)} {first second : Nat}
    (h : RepeatsAt (keysOf entries) first second) :
    exists r, repeatAt? entries second = some r ∧ r.later = second ∧ r.first ≤ first := by
  rcases repeatsAt_keysOf_iff.mp h with ⟨hlt, entry, hentry, hholds⟩
  rcases holdsAt_iff.mp hholds with ⟨early, hearly, heq⟩
  rcases exists_firstPosition?_le hearly with ⟨least, hleast, hle⟩
  rw [firstPosition?_congr heq] at hleast
  refine ⟨⟨least, second⟩, ?_, rfl, hle⟩
  exact repeatAt?_eq_some_iff.mpr
    ⟨rfl, Nat.lt_of_le_of_lt hle hlt, entry, hentry, hleast⟩

theorem distinct_of_repeatsOf_eq_nil {entries : Array (Entry K V)}
    (h : repeatsOf entries = []) :
    Distinct (keysOf entries) := by
  apply distinct_keysOf_iff.mpr
  intro p q entry hlt hentry
  apply Bool.eq_false_iff.mpr
  intro hholds
  rcases exists_repeatAt?_of_repeatsAt
    (repeatsAt_keysOf_iff.mpr ⟨hlt, entry, hentry, hholds⟩) with ⟨r, hr, hlater, _⟩
  have hmem : r ∈ repeatsOf entries := mem_repeatsOf_iff.mpr (hlater.symm ▸ hr)
  rw [h] at hmem
  cases hmem

theorem firstRepeat_of_head? {entries : Array (Entry K V)} {r : Index.Repeat}
    (h : (repeatsOf entries).head? = some r) :
    FirstRepeat (keysOf entries) r.first r.later := by
  rcases List.head?_eq_some_iff.mp h with ⟨rest, hrest⟩
  have hmem : r ∈ repeatsOf entries := hrest ▸ List.mem_cons_self
  have hascending := ascending_repeatsOf entries
  rw [hrest] at hascending
  refine ⟨repeatsAt_of_repeatAt? (mem_repeatsOf_iff.mp hmem), ?_, ?_⟩
  · intro p q hrepeats
    rcases exists_repeatAt?_of_repeatsAt hrepeats with ⟨s, hs, hlater, _⟩
    have hsmem : s ∈ repeatsOf entries := mem_repeatsOf_iff.mpr (hlater.symm ▸ hs)
    rw [hrest] at hsmem
    rcases List.mem_cons.mp hsmem with rfl | hsrest
    · exact Nat.le_of_eq hlater
    · rw [← hlater]
      exact Nat.le_of_lt ((List.pairwise_cons.mp hascending).1 s hsrest)
  · intro p hrepeats
    rcases exists_repeatAt?_of_repeatsAt hrepeats with ⟨s, hs, _, hle⟩
    rw [mem_repeatsOf_iff.mp hmem] at hs
    cases hs
    exact hle

theorem distinct_or_firstRepeat (entries : Array (Entry K V)) :
    Distinct (keysOf entries) ∨
      exists first second, FirstRepeat (keysOf entries) first second := by
  cases hrepeats : repeatsOf entries with
  | nil => exact Or.inl (distinct_of_repeatsOf_eq_nil hrepeats)
  | cons r rest =>
      have hhead : (repeatsOf entries).head? = some r := by
        rw [hrepeats, List.head?_cons]
      exact Or.inr ⟨r.first, r.later, firstRepeat_of_head? hhead⟩

theorem distinct_or_firstRepeat_pairs (pairs : List (K × V)) :
    Distinct (pairs.map Prod.fst) ∨
      exists first second, FirstRepeat (pairs.map Prod.fst) first second := by
  rw [← keysOf_ofPair]
  exact distinct_or_firstRepeat _

theorem exists_firstRepeat {pairs : List (K × V)} {p q : Nat}
    (h : RepeatsAt (pairs.map Prod.fst) p q) :
    exists first second, FirstRepeat (pairs.map Prod.fst) first second :=
  (distinct_or_firstRepeat_pairs pairs).resolve_left fun hdistinct =>
    hdistinct.not_repeatsAt p q h

theorem distinct_of_not_repeatsAt {pairs : List (K × V)}
    (h : forall p q, ¬RepeatsAt (pairs.map Prod.fst) p q) :
    Distinct (pairs.map Prod.fst) := by
  rcases distinct_or_firstRepeat_pairs pairs with hdistinct | ⟨first, second, hfirst⟩
  · exact hdistinct
  · exact absurd hfirst.repeats (h first second)

end Equivalence

/-! ## Distinct entries -/

namespace Construction

variable [Hashable K]

def Keeps (construction : Construction K V) (entries : Array (Entry K V)) : Prop :=
  exists map, construction.outcome = .ok map ∧ map.entries = entries

theorem keeps_built {layout : Layout K V} {entries : Array (Entry K V)}
    (h : layout.entries = entries) (hash : K -> UInt64) :
    (built ⟨layout, hash⟩).Keeps entries :=
  ⟨⟨layout, hash⟩, rfl, h⟩

theorem entries_small {entries : Array (Entry K V)} (h : entries.size < 2) :
    (Layout.small entries).entries = entries :=
  (Layout.presents_small h).entries_eq

theorem entries_ofChained (entries : Array (Entry K V)) (index : Chained K) :
    (Layout.ofChained entries index).entries = entries := by
  unfold Layout.ofChained
  split
  next h => exact entries_small h
  next => rfl

variable [EquivBEq K] [LawfulHashable K] {entries : Array (Entry K V)}
  (hdistinct : Distinct (keysOf entries))

include hdistinct

theorem indexKeyed_keeps (hash : K -> UInt64) (state : σ) :
    ((indexKeyed hash (.reject : Policy σ K V) entries).run state).1.Keeps entries := by
  have hplaced := Index.place_true_of_ne_rejected (keyed_place_ne_rejected fun _ => hdistinct)
  rcases hplaced.resolve_left (Keyed.place_ne_overflow true entries) with ⟨index, hdone⟩
  rw [indexKeyed, Policy.rejects, hdone]
  exact keeps_built (Layout.entries_ofKeyed entries index) hash

theorem index_keeps (hash : K -> UInt64) (state : σ) :
    ((index hash (.reject : Policy σ K V) entries).run state).1.Keeps entries := by
  unfold index
  split
  next hsize => exact keeps_built (entries_small hsize) hash
  next =>
    have hplaced := Index.place_true_of_ne_rejected
      (Chained.place_ne_rejected hash fun _ => hdistinct)
    dsimp only
    rw [Policy.rejects]
    -- The first index may overflow, and then the keyed one takes the entries.
    rcases hplaced with hoverflow | ⟨index, hdone⟩
    · rw [hoverflow]
      exact indexKeyed_keeps hdistinct hash state
    · rw [hdone]
      exact keeps_built (entries_ofChained entries index) hash

end Construction

/-! ## Maps of pairs -/

namespace Map

variable [Hashable K]

theorem toList_of_entries {map : Map K V} {pairs : List (K × V)}
    (h : map.entries = (pairs.map Entry.ofPair).toArray) :
    map.toList = pairs := by
  rw [toList, h, List.map_map]
  exact List.map_id pairs

theorem ofDistinct_eq (hash : K -> UInt64) (pairs : List (K × V)) :
    ofDistinct hash pairs =
      ((Construction.index hash (.reject : Policy Unit K V)
        (pairs.map Entry.ofPair).toArray).run ()).1 := by
  rw [ofDistinct, Builder.build, Builder.buildWith, Builder.entries_ofList]
  rfl

variable [EquivBEq K] [LawfulHashable K]

theorem ofDistinct_of_distinct {pairs : List (K × V)} (h : Distinct (pairs.map Prod.fst))
    (hash : K -> UInt64) :
    exists map, (ofDistinct hash pairs).outcome = .ok map ∧ map.toList = pairs := by
  rw [← keysOf_ofPair] at h
  rcases Construction.index_keeps h hash () with ⟨map, houtcome, hentries⟩
  rw [← ofDistinct_eq] at houtcome
  exact ⟨map, houtcome, toList_of_entries hentries⟩

theorem ofDistinct_of_firstRepeat {pairs : List (K × V)} {first second : Nat}
    (h : FirstRepeat (pairs.map Prod.fst) first second) {hash : K -> UInt64}
    (hhash : forall a b, (a == b) = true -> hash a = hash b) :
    (ofDistinct hash pairs).outcome = .error (.duplicateKey first second) := by
  rw [← keysOf_ofPair] at h
  have hagrees := Construction.index_agrees hhash (.reject : Policy Unit K V)
    (pairs.map Entry.ofPair).toArray ()
  have hyields := hagrees.yields
  rw [run_settled_of_head? rfl h.head?_repeatsOf, ← ofDistinct_eq] at hyields
  exact hyields

/-! ## The pairs of a map -/

theorem map_fst_toList {K V : Type} [BEq K] [Hashable K] (map : Map K V) :
    map.toList.map Prod.fst = map.keys := by
  rw [toList, keys, List.map_map]
  rfl

theorem exists_ofDistinct_toList {hash : K -> UInt64}
    (hhash : forall a b, (a == b) = true -> hash a = hash b) {entries : Array (Entry K V)}
    {map : Map K V} (h : Construction.Constructed hash entries map) (other : K -> UInt64) :
    exists rebuilt, (ofDistinct other map.toList).outcome = .ok rebuilt ∧
      rebuilt.toList = map.toList := by
  have hdistinct : Distinct (map.toList.map Prod.fst) := by
    rw [map_fst_toList]
    exact distinct_keys (h.exact hhash)
  exact ofDistinct_of_distinct hdistinct other

end Map
end SealedMap
