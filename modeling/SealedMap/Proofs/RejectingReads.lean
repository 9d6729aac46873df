import Mathlib
import SealedMap.Proofs.PairStreams
import SealedMap.Proofs.RejectingBuilds

/-!
# Reading is building the pairs read

Reading a persisted form is the rejecting build of the pairs that it holds.  A
fault in the pairs comes before keys that repeat among them, wherever these
stand, and keys that repeat come before anything that follows the pairs.
-/

namespace SealedMap

/-! ## What an object holds -/

namespace Json

variable {K V : Type} [Name K] [Value V]

inductive ObjectStream (text : List Char) :
    List (K × V) -> Except Fault (List Char) -> Prop where
  | opened {inside : List Char} {pairs : List (K × V)} {ending : Except Fault (List Char)} :
      skipBlank text = '\x7b' :: inside -> MemberStream inside pairs ending ->
      ObjectStream text pairs ending

variable [LawfulName K] [LawfulValue V] {text : List Char} {pairs : List (K × V)}

theorem exists_objectStream {inside : List Char} (h : skipBlank text = '\x7b' :: inside) :
    exists (pairs : List (K × V)) (ending : Except Fault (List Char)),
      ObjectStream text pairs ending := by
  rcases exists_memberStream (K := K) (V := V) inside with ⟨pairs, ending, hstream⟩
  exact ⟨pairs, ending, .opened h hstream⟩

theorem ObjectStream.readObject {ending : Except Fault (List Char)}
    (h : ObjectStream text pairs ending) :
    readObject text = ending.map fun rest => (pairs, rest) := by
  cases h with
  | opened hopened hstream => exact hstream.readObject hopened

theorem ObjectStream.exists_used {rest : List Char} (h : ObjectStream text pairs (.ok rest)) :
    exists used, text = used ++ rest ∧
      forall tail, ObjectStream (used ++ tail) pairs (.ok tail) := by
  cases h with
  | @opened inside _ _ hopened hstream =>
      rcases hstream.exists_used with ⟨members, rfl, hmembers⟩
      rcases exists_front_of_skipBlank hopened with ⟨front, rfl, hfront⟩
      refine ⟨front ++ '\x7b' :: members,
        (List.append_assoc front ('\x7b' :: members) rest).symm, ?_⟩
      intro tail
      rw [List.append_assoc, List.cons_append]
      exact .opened (hfront (members ++ tail)) (hmembers tail)

end Json

/-! ## What reading ends with -/

section Read

variable {K V τ ε δ ρ : Type} [BEq K] [Hashable K]

/--
Reading items that hold these pairs ends with the fault that was met, whatever
keys repeat before it.  Without one it ends with the first repeat, which is the
one that a rejecting build of the pairs names, whatever follows them.  Without
either, what it ends with is a matter of the map built, of the items used and of
those that follow.
-/
structure RejectingRead (hash : K -> UInt64) (read : List τ -> Except δ ρ)
    (unreadable : ε -> δ) (refused : Refusal -> δ)
    (accepted : Map K V -> List τ -> List τ -> Except δ ρ)
    (items : List τ) (pairs : List (K × V)) (ending : Except ε (List τ)) : Prop where
  of_fault : forall fault, ending = .error fault -> read items = .error (unreadable fault)
  of_repeat : forall rest p q, ending = .ok rest -> RepeatsAt (pairs.map Prod.fst) p q ->
    exists first second, FirstRepeat (pairs.map Prod.fst) first second ∧
      (Builder.ofList hash pairs).build.outcome = .error (.duplicateKey first second) ∧
      exists used, items = used ++ rest ∧
        forall tail, read (used ++ tail) = .error (refused (.duplicateKey first second))
  of_distinct : forall rest, ending = .ok rest ->
    (forall p q, ¬RepeatsAt (pairs.map Prod.fst) p q) ->
    exists map, (Builder.ofList hash pairs).build.outcome = .ok map ∧ map.toList = pairs ∧
      exists used, items = used ++ rest ∧
        forall tail, read (used ++ tail) = accepted map used tail

theorem rejectingRead [EquivBEq K] [LawfulHashable K] {hash : K -> UInt64}
    (hhash : forall a b, (a == b) = true -> hash a = hash b)
    {read : List τ -> Except δ ρ} {unreadable : ε -> δ} {refused : Refusal -> δ}
    {accepted : Map K V -> List τ -> List τ -> Except δ ρ} {pairs : List (K × V)}
    (holds : List τ -> Except ε (List τ) -> Prop)
    (hused : forall items rest, holds items (.ok rest) ->
      exists used, items = used ++ rest ∧ forall tail, holds (used ++ tail) (.ok tail))
    (hunreadable : forall items fault, holds items (.error fault) ->
      read items = .error (unreadable fault))
    (hrefused : forall items rest refusal, holds items (.ok rest) ->
      (Map.ofDistinct hash pairs).outcome = .error refusal ->
      read items = .error (refused refusal))
    (haccepted : forall used tail map, holds (used ++ tail) (.ok tail) ->
      (Map.ofDistinct hash pairs).outcome = .ok map ->
      read (used ++ tail) = accepted map used tail)
    {items : List τ} {ending : Except ε (List τ)} (h : holds items ending) :
    RejectingRead hash read unreadable refused accepted items pairs ending where
  of_fault := by
    intro fault hending
    subst hending
    exact hunreadable items fault h
  of_repeat := by
    intro rest p q hending hrepeats
    subst hending
    rcases exists_firstRepeat hrepeats with ⟨first, second, hfirst⟩
    have hbuild := Map.ofDistinct_of_firstRepeat hfirst hhash
    rcases hused items rest h with ⟨used, hitems, hholds⟩
    refine ⟨first, second, hfirst, hbuild, used, hitems, ?_⟩
    intro tail
    exact hrefused (used ++ tail) tail _ (hholds tail) hbuild
  of_distinct := by
    intro rest hending hrepeats
    subst hending
    rcases Map.ofDistinct_of_distinct (distinct_of_not_repeatsAt hrepeats) hash with
      ⟨map, hbuild, hpairs⟩
    rcases hused items rest h with ⟨used, hitems, hholds⟩
    refine ⟨map, hbuild, hpairs, used, hitems, ?_⟩
    intro tail
    exact haccepted used tail map (hholds tail) hbuild

end Read

namespace Map

open Binary (Convention PairStream)
open Json (ObjectStream)
open Session (KeyKind ValueKind)

variable {K V : Type} [BEq K] [Hashable K] [EquivBEq K] [LawfulHashable K] {hash : K -> UInt64}

theorem rejectingRead_ofBytes [Binary.Laid K] [Binary.Laid V] [Binary.LawfulLaid K]
    [Binary.LawfulLaid V] (hhash : forall a b, (a == b) = true -> hash a = hash b)
    {convention : Convention} {bytes : List UInt8} {pairs : List (K × V)}
    {ending : Except Binary.Fault (List UInt8)} (h : PairStream convention bytes pairs ending) :
    RejectingRead hash (fun bytes => (ofBytes (V := V) hash convention bytes).outcome)
      .unreadable .refused (fun map used _ => .ok (map, used.length)) bytes pairs ending := by
  refine rejectingRead hhash (PairStream convention · pairs ·)
    (fun _ _ => PairStream.exists_used) ?_ ?_ ?_ h
  · intro bytes fault hstream
    rw [ofBytes, hstream.readPairs]
    rfl
  · intro bytes rest refusal hstream hbuild
    rw [ofBytes, hstream.readPairs, Except.map]
    dsimp only
    rw [hbuild]
  · intro used tail map hstream hbuild
    rw [ofBytes, hstream.readPairs, Except.map]
    dsimp only
    rw [hbuild, List.length_append, Nat.add_sub_cancel]

theorem rejectingRead_ofJson [Json.Name K] [Json.Value V] [Json.LawfulName K]
    [Json.LawfulValue V] (hhash : forall a b, (a == b) = true -> hash a = hash b)
    {text : List Char} {pairs : List (K × V)} {ending : Except Json.Fault (List Char)}
    (h : ObjectStream text pairs ending) :
    RejectingRead hash (fun text => (ofJson (V := V) hash (String.ofList text)).outcome)
      id .refused
      (fun map _ rest =>
        if (Json.skipBlank rest).isEmpty then .ok map else .error .malformed)
      text pairs ending := by
  refine rejectingRead hhash (ObjectStream · pairs ·)
    (fun _ _ => ObjectStream.exists_used) ?_ ?_ ?_ h
  · intro text fault hstream
    rw [ofJson, String.toList_ofList, hstream.readObject]
    rfl
  · intro text rest refusal hstream hbuild
    rw [ofJson, String.toList_ofList, hstream.readObject, Except.map]
    dsimp only
    rw [ofPairsRead, hbuild]
  · intro used tail map hstream hbuild
    rw [ofJson, String.toList_ofList, hstream.readObject, Except.map]
    dsimp only
    rw [ofPairsRead, hbuild]
    dsimp only
    split
    next => rfl
    next => rfl

/--
Reading bytes, or a text that starts an object, is the rejecting build of the
pairs that it holds.  After the pairs, bytes may be followed by anything, and a
text by blanks.
-/
theorem reading_is_rejecting_build {K V : Type} [KeyKind K] [ValueKind V]
    (hkeys : KeyKind.Covered K) (hvalues : ValueKind.Covered V) {hash : K -> UInt64}
    (hhash : forall a b, (a == b) = true -> hash a = hash b) :
    (forall (convention : Convention) (bytes : List UInt8),
      (exists (pairs : List (K × V)) (ending : Except Binary.Fault (List UInt8)),
        PairStream convention bytes pairs ending) ∧
      forall (pairs : List (K × V)) (ending : Except Binary.Fault (List UInt8)),
        PairStream convention bytes pairs ending ->
        RejectingRead hash (fun bytes => (ofBytes (V := V) hash convention bytes).outcome)
          .unreadable .refused (fun map used _ => .ok (map, used.length))
          bytes pairs ending) ∧
    forall (text : String) (inside : List Char),
      Json.skipBlank text.toList = '\x7b' :: inside ->
      (exists (pairs : List (K × V)) (ending : Except Json.Fault (List Char)),
        ObjectStream text.toList pairs ending) ∧
      forall (pairs : List (K × V)) (ending : Except Json.Fault (List Char)),
        ObjectStream text.toList pairs ending ->
        RejectingRead hash (fun text => (ofJson (V := V) hash (String.ofList text)).outcome)
          id .refused
          (fun map _ rest =>
            if (Json.skipBlank rest).isEmpty then .ok map else .error .malformed)
          text.toList pairs ending := by
  have := hkeys.equivBEq
  have := hkeys.lawfulHashable
  have := Binary.lawfulLaid_of_key hkeys
  have := Binary.lawfulLaid_of_value hvalues
  have := Json.lawfulName_of_key hkeys
  have := Json.lawfulValue_of_value hvalues
  constructor
  · intro convention bytes
    refine ⟨Binary.exists_pairStream convention bytes, ?_⟩
    intro pairs ending hstream
    exact rejectingRead_ofBytes hhash hstream
  · intro text inside hopened
    refine ⟨Json.exists_objectStream hopened, ?_⟩
    intro pairs ending hstream
    exact rejectingRead_ofJson hhash hstream

/--
A key repeats in another case.  Bytes with a fault behind it are unreadable, and
a text, where its letter is escaped besides, names both whatever follows.
-/
theorem reading_is_rejecting_build_anotherCase :
    (ofBytes (V := Nullable) (fun _ : Caseless => 0) .variable
      [3, 1, 97, 0, 1, 65, 0, 1, 98, 2]).outcome = .error (.unreadable .invalid) ∧
    forall tail, (ofJson (V := Nullable) (fun _ : Caseless => 0)
      (String.ofList ("\x7b\"a\":1,\"\\u0041\":null\x7d".toList ++ tail))).outcome =
        .error (.refused (.duplicateKey 0 1)) := by
  have hhash : forall a b : Caseless, (a == b) = true -> (0 : UInt64) = 0 := fun _ _ _ => rfl
  rcases reading_is_rejecting_build (V := Nullable) .caseless .nullable hhash with
    ⟨hbytes, htext⟩
  constructor
  · rcases hbytes .variable [3, 1, 97, 0, 1, 65, 0, 1, 98, 2] with ⟨⟨pairs, ending, h⟩, hreads⟩
    have hread := h.readPairs
    have hfault : (Binary.readPairs .variable [3, 1, 97, 0, 1, 65, 0, 1, 98, 2] :
        Except Binary.Fault (List (Caseless × Nullable) × List UInt8)) = .error .invalid := by
      cbv
    rw [hfault] at hread
    cases ending with
    | error fault =>
        cases hread
        exact (hreads pairs _ h).of_fault .invalid rfl
    | ok rest => cases hread
  · have hopened : Json.skipBlank "\x7b\"a\":1,\"\\u0041\":null\x7d".toList =
        '\x7b' :: "\"a\":1,\"\\u0041\":null\x7d".toList := by cbv
    rcases htext _ _ hopened with ⟨⟨pairs, ending, h⟩, hreads⟩
    have hread := h.readObject
    have hpairs : (Json.readObject "\x7b\"a\":1,\"\\u0041\":null\x7d".toList :
        Except Json.Fault (List (Caseless × Nullable) × List Char)) =
          .ok ([(⟨"a"⟩, .some 1), (⟨"A"⟩, .nil)], []) := by cbv
    rw [hpairs] at hread
    cases ending with
    | error fault => cases hread
    | ok rest =>
        cases hread
        have hrepeats : RepeatsAt [(⟨"a"⟩ : Caseless), ⟨"A"⟩] 0 1 :=
          ⟨Nat.zero_lt_one, ⟨"a"⟩, ⟨"A"⟩, rfl, rfl, by cbv⟩
        rcases (hreads _ _ h).of_repeat [] 0 1 rfl hrepeats with
          ⟨first, second, hfirst, _, used, hused, hrefused⟩
        have hsecond := hfirst.second_le 0 1 hrepeats
        have hlt := hfirst.repeats.1
        obtain rfl : second = 1 := by omega
        obtain rfl : first = 0 := by omega
        rw [List.append_nil] at hused
        rw [hused]
        exact hrefused

end Map
end SealedMap
